import Nblex.Core.NqlExecutor.Proofs.Accumulators

/-!
# Interference between the functions of a query

The value computed for a function is the reference aggregate of its own field exactly for the
queries whose functions do not write into each other's accumulators.
-/

namespace Nblex

/-- The reference aggregate of a function over a sequence of events. -/
def referenceValue (rows : List (Event × Nat)) (func : AggFunc) : Option Json :=
  match func.type, func.field with
  | .count, _ => some (.integer (toInt64 rows.length))
  | .sum, some field => some (.real (rows.map (readField · field)).sum)
  | .avg, some field => some (.real ((rows.map (readField · field)).sum / rows.length))
  | .min, some field => (rows.map (readField · field)).min?.map .real
  | .max, some field => (rows.map (readField · field)).max?.map .real
  | .percentile, some field =>
      (percentileOf (rows.map (readField · field)) func.percentile.value).map .real
  | _, _ => none

/-- `count`, or one of `sum`, `avg`, `min`, `max` and `percentile` over a field. -/
def AggFunc.Listed (func : AggFunc) : Prop :=
  func.type = .count ∨ (func.type ≠ .distinct ∧ ∃ field, func.field = some field)

/-- All the fields of the functions are present in all events, with integer values. -/
def IntegerRows (funcs : List AggFunc) (rows : List (Event × Nat)) : Prop :=
  ∀ row ∈ rows, ∃ data, row.1.data = some data ∧ ∀ func ∈ funcs, ∀ field,
    func.field = some field → ∃ n : Int, jsonGetPath data field = some (.integer n)

/-- Every function of a query gets its reference value in every bucket that has counted any
    events since it was created or reset. -/
def MeetsReference (window : Window) (funcs : List AggFunc) : Prop :=
  ∀ (bucket : Bucket) (rows : List (Event × Nat)), bucket.Cleared → rows ≠ [] →
    IntegerRows funcs rows → ∀ func ∈ funcs,
      aggFuncValue (fillBucket window funcs bucket rows) func = referenceValue rows func

/-- The functions of a query do not write into each other's accumulators: there is at most one
    `sum` or `avg`, whatever writes to `min` beside a `min` function reads its field, the same
    for `max`, and all percentiles are of one field. -/
structure Independent (funcs : List AggFunc) : Prop where
  sums : (fieldsOf writesSum funcs).length ≤ 1
  mins : ∀ func ∈ funcs, func.type = .min →
    ∀ field ∈ fieldsOf writesMin funcs, func.field = some field
  maxs : ∀ func ∈ funcs, func.type = .max →
    ∀ field ∈ fieldsOf writesMax funcs, func.field = some field
  percentiles : ∀ field ∈ fieldsOf writesPercentile funcs,
    ∀ other ∈ fieldsOf writesPercentile funcs, field = other

variable {funcs : List AggFunc} {rows : List (Event × Nat)} {field : String}

/-! ## Independent functions get their reference values -/

/-- When all the fields written are one field, the values written are its values. -/
theorem mem_written_iff {fields : List String} (here : field ∈ fields)
    (only : ∀ other ∈ fields, field = other) (value : ℚ) :
    value ∈ rows.flatMap (fun row => fields.map (readField row)) ↔
      value ∈ rows.map (readField · field) := by
  simp only [List.mem_flatMap, List.mem_map]
  constructor
  · rintro ⟨row, member, other, inside, rfl⟩
    exact ⟨row, member, by rw [only other inside]⟩
  · rintro ⟨row, member, rfl⟩
    exact ⟨row, member, field, here, rfl⟩

theorem written_single (field : String) :
    rows.flatMap (fun row => [field].map (readField row)) = rows.map (readField · field) := by
  simp only [List.map_cons, List.map_nil]
  exact (List.map_eq_flatMap).symm

/-- When all the fields written are one field, its values are written a fixed number of times
    each. -/
theorem written_repeat {fields : List String} (only : ∀ other ∈ fields, field = other) :
    rows.flatMap (fun row => fields.map (readField row)) =
      (rows.map (readField · field)).flatMap (List.replicate fields.length) := by
  rw [List.flatMap_map]
  refine congrArg (fun f => List.flatMap f rows) (funext ?_)
  intro row
  rw [List.eq_replicate_iff]
  refine ⟨List.length_map _, ?_⟩
  intro value member
  obtain ⟨other, inside, rfl⟩ := List.mem_map.mp member
  rw [only other inside]

/-- The accumulators of a bucket that counted `rows` from the start. -/
theorem fillBucket_accumulated (window : Window) (funcs : List AggFunc) {bucket : Bucket}
    (cleared : bucket.Cleared) (rows : List (Event × Nat)) :
    Accumulated (fillBucket window funcs bucket rows)
      (fun writes => rows.flatMap (fun row => (fieldsOf writes funcs).map (readField row))) := by
  simpa using cleared.accumulated.fill window funcs

theorem meetsReference_of_independent (window : Window)
    (listed : ∀ func ∈ funcs, func.Listed) (independent : Independent funcs) :
    MeetsReference window funcs := by
  intro bucket rows cleared nonempty _ func member
  have acc := fillBucket_accumulated window funcs cleared rows
  have count : (fillBucket window funcs bucket rows).count = rows.length := by
    rw [fillBucket_count, cleared.count, Nat.zero_add]
  have someRows : rows.length ≠ 0 := fun zero => nonempty (List.length_eq_zero_iff.mp zero)
  have written : ∀ {writes : AggFuncType → Bool} {field : String},
      writes func.type = true → func.field = some field → field ∈ fieldsOf writes funcs :=
    fun wrote found => mem_fieldsOf.mpr ⟨func, member, wrote, found⟩
  -- With one sum or average in the query, its field is all that is written to the sum.
  have sumEq : ∀ {field : String}, writesSum func.type = true → func.field = some field →
      (fillBucket window funcs bucket rows).sum = (rows.map (readField · field)).sum := by
    intro field wrote found
    have one : fieldsOf writesSum funcs = [field] := by
      have inside := written wrote found
      have short := independent.sums
      match fieldsOf writesSum funcs, inside, short with
      | [other], inside, _ => rw [List.mem_singleton.mp inside]
    rw [acc.sum, one, written_single]
  rcases listed func member with isCount | ⟨notDistinct, field, found⟩
  · simp only [aggFuncValue, referenceValue, isCount, count]
  · cases type : func.type with
    | count => simp only [aggFuncValue, referenceValue, type, count]
    | sum =>
        simp only [aggFuncValue, referenceValue, type, found, Option.map_some]
        rw [sumEq (by rw [type]; rfl) found]
    | avg =>
        have positive : 0 < rows.length := by omega
        simp only [aggFuncValue, referenceValue, type, found, Option.map_some, count,
          gt_iff_lt, positive, if_true]
        rw [sumEq (by rw [type]; rfl) found]
    | min =>
        have only : ∀ other ∈ fieldsOf writesMin funcs, field = other := by
          intro other inside
          exact Option.some.inj (found.symm.trans (independent.mins func member type other inside))
        simp only [aggFuncValue, referenceValue, type, found, Option.bind_some]
        rw [acc.min, min?_congr (mem_written_iff (written (by rw [type]; rfl) found) only)]
    | max =>
        have only : ∀ other ∈ fieldsOf writesMax funcs, field = other := by
          intro other inside
          exact Option.some.inj (found.symm.trans (independent.maxs func member type other inside))
        simp only [aggFuncValue, referenceValue, type, found, Option.bind_some]
        rw [acc.max, max?_congr (mem_written_iff (written (by rw [type]; rfl) found) only)]
    | percentile =>
        have here : field ∈ fieldsOf writesPercentile funcs := written (by rw [type]; rfl) found
        have values : rows.map (readField · field) ≠ [] := by simpa using nonempty
        simp only [aggFuncValue, referenceValue, type, found, Option.bind_some]
        rw [acc.percentileValues, written_repeat (independent.percentiles field here),
          percentileOf_repeat (List.length_pos_of_mem here) values]
    | distinct => exact absurd type notDistinct

/-! ## Interfering functions do not -/

/-- One event that carries the given values in all fields of a query. -/
def sampleRow (funcs : List AggFunc) (value : String → Int) : Event × Nat :=
  ({ type := .log
     timestampNs := 1
     input := none
     data := some (.object ((fieldsOf (fun _ => true) funcs).map
       (fun field => (field, .integer (value field))))) }, 0)

theorem get?_object_map {fields : List String} (f : String → Json) (member : field ∈ fields) :
    (Json.object (fields.map (fun field => (field, f field)))).get? field =
      some (f field) := by
  induction fields with
  | nil => cases member
  | cons other fields ih =>
      simp only [Json.get?, List.map_cons, List.find?_cons] at ih ⊢
      by_cases same : other = field
      · simp [same]
      · have inside : field ∈ fields := by
          rcases List.mem_cons.mp member with equal | inside
          · exact absurd equal.symm same
          · exact inside
        simp only [beq_eq_false_iff_ne.mpr same]
        exact ih inside

theorem sampleRow_field (value : String → Int) (member : field ∈ fieldsOf (fun _ => true) funcs) :
    jsonGetPath ((sampleRow funcs value).1.data.getD .null) field =
      some (.integer (value field)) :=
  jsonGetPath_direct (get?_object_map (fun field => .integer (value field)) member)

theorem readField_sampleRow (value : String → Int)
    (member : field ∈ fieldsOf (fun _ => true) funcs) :
    readField (sampleRow funcs value) field = value field := by
  rw [readField, getNumericValue, sampleRow_field value member]

theorem sampleRow_integer (funcs : List AggFunc) (value : String → Int) :
    IntegerRows funcs [sampleRow funcs value] := by
  intro row member
  rw [List.mem_singleton.mp member]
  refine ⟨_, rfl, ?_⟩
  intro func inside field found
  exact ⟨value field, sampleRow_field value (mem_fieldsOf.mpr ⟨func, inside, rfl, found⟩)⟩

/-- What a new bucket holds after one such event. -/
theorem sampleRow_accumulated (window : Window) (funcs : List AggFunc) (value : String → Int) :
    Accumulated (fillBucket window funcs (newBucket 0 none 0 0) [sampleRow funcs value])
      (fun writes => (fieldsOf writes funcs).map (fun field => (value field : ℚ))) := by
  have acc := fillBucket_accumulated window funcs (newBucket_cleared 0 none 0 0)
    [sampleRow funcs value]
  have same : ∀ writes, [sampleRow funcs value].flatMap
      (fun row => (fieldsOf writes funcs).map (readField row)) =
        (fieldsOf writes funcs).map (fun field => (value field : ℚ)) := by
    intro writes
    rw [List.flatMap_singleton]
    refine List.map_congr_left ?_
    intro field inside
    obtain ⟨func, member, -, found⟩ := mem_fieldsOf.mp inside
    exact readField_sampleRow value (mem_fieldsOf.mpr ⟨func, member, rfl, found⟩)
  simpa only [same] using acc

section Probe

variable {window : Window} {func : AggFunc} (value : String → Int)

theorem sampleRow_values (member : func ∈ funcs) (found : func.field = some field) :
    [sampleRow funcs value].map (readField · field) = [(value field : ℚ)] := by
  have inside : field ∈ fieldsOf (fun _ => true) funcs :=
    mem_fieldsOf.mpr ⟨func, member, rfl, found⟩
  rw [List.map_singleton, readField_sampleRow value inside]

/-- A query that meets the reference meets it on one event. -/
theorem MeetsReference.sample (meets : MeetsReference window funcs) (member : func ∈ funcs) :
    aggFuncValue (fillBucket window funcs (newBucket 0 none 0 0) [sampleRow funcs value]) func =
      referenceValue [sampleRow funcs value] func :=
  meets _ _ (newBucket_cleared 0 none 0 0) (by simp) (sampleRow_integer funcs value) func member

/-- On one event the sum is the value of the field of every `sum` and `avg`. -/
theorem MeetsReference.sample_sum (meets : MeetsReference window funcs) (member : func ∈ funcs)
    (found : func.field = some field) (wrote : writesSum func.type = true) :
    ((fieldsOf writesSum funcs).map (fun field => (value field : ℚ))).sum = value field := by
  have acc := sampleRow_accumulated window funcs value
  have same := meets.sample value member
  have count : (fillBucket window funcs (newBucket 0 none 0 0)
      [sampleRow funcs value]).count = 1 := fillBucket_count window funcs _
  rw [← acc.sum]
  cases type : func.type with
  | sum =>
      simp only [aggFuncValue, referenceValue, type, found, Option.map_some,
        sampleRow_values value member found, List.sum_singleton] at same
      exact Json.real.inj (Option.some.inj same)
  | avg =>
      simp only [aggFuncValue, referenceValue, type, found, Option.map_some, count,
        sampleRow_values value member found, List.sum_singleton, List.length_singleton,
        gt_iff_lt, Nat.one_pos, if_true, Nat.cast_one, div_one] at same
      exact Json.real.inj (Option.some.inj same)
  | count | min | max | percentile | distinct =>
      rw [type] at wrote
      cases wrote

theorem MeetsReference.sample_min (meets : MeetsReference window funcs) (member : func ∈ funcs)
    (found : func.field = some field) (type : func.type = .min) :
    ((fieldsOf writesMin funcs).map (fun field => (value field : ℚ))).min? =
      some (value field : ℚ) := by
  have acc := sampleRow_accumulated window funcs value
  have same := meets.sample value member
  rw [← acc.min]
  simp only [aggFuncValue, referenceValue, type, found, Option.bind_some,
    sampleRow_values value member found, List.min?_singleton] at same
  exact Option.map_injective (fun _ _ => Json.real.inj) same

theorem MeetsReference.sample_max (meets : MeetsReference window funcs) (member : func ∈ funcs)
    (found : func.field = some field) (type : func.type = .max) :
    ((fieldsOf writesMax funcs).map (fun field => (value field : ℚ))).max? =
      some (value field : ℚ) := by
  have acc := sampleRow_accumulated window funcs value
  have same := meets.sample value member
  rw [← acc.max]
  simp only [aggFuncValue, referenceValue, type, found, Option.bind_some,
    sampleRow_values value member found, List.max?_singleton] at same
  exact Option.map_injective (fun _ _ => Json.real.inj) same

/-- On one event a percentile is the value of its field. -/
theorem MeetsReference.sample_percentile (meets : MeetsReference window funcs)
    (member : func ∈ funcs) (found : func.field = some field) (type : func.type = .percentile) :
    percentileOf ((fieldsOf writesPercentile funcs).map (fun field => (value field : ℚ)))
      func.percentile.value = some (value field : ℚ) := by
  have acc := sampleRow_accumulated window funcs value
  have same := meets.sample value member
  have single : percentileOf [(value field : ℚ)] func.percentile.value =
      some (value field : ℚ) := by
    rw [percentileOf_eq (List.Perm.refl _) (List.pairwise_singleton _ _)]
    have first : percentileIndex func.percentile.value 1 = 0 := by
      unfold percentileIndex
      dsimp only
      split
      · rfl
      · omega
    rw [List.length_singleton, first]
    rfl
  rw [← acc.percentileValues]
  simp only [aggFuncValue, referenceValue, type, found, Option.bind_some,
    sampleRow_values value member found] at same
  rw [single] at same
  exact Option.map_injective (fun _ _ => Json.real.inj) same

end Probe

/-- The percentiles of a field leave less than half of the values to other fields: with the
    field lowest its position lies within its own values, with the field highest too. -/
theorem MeetsReference.length_lt {window : Window} (meets : MeetsReference window funcs)
    (inside : field ∈ fieldsOf writesPercentile funcs) :
    (fieldsOf writesPercentile funcs).length <
      2 * (fieldsOf writesPercentile funcs).count field := by
  obtain ⟨func, member, wrote, found⟩ := mem_fieldsOf.mp inside
  have type : func.type = .percentile := by
    cases type : func.type with
    | percentile => rfl
    | count | sum | avg | min | max | distinct =>
        rw [type] at wrote
        cases wrote
  have bound : (fieldsOf writesPercentile funcs).count field ≤
      (fieldsOf writesPercentile funcs).length := List.count_le_length
  have low := meets.sample_percentile (fun other => if other = field then 0 else 1) member found
    type
  have high := meets.sample_percentile (fun other => if other = field then 1 else 0) member found
    type
  simp only [if_true, Int.cast_ite, Int.cast_zero, Int.cast_one] at low high
  have lowPerm := map_ite_perm (fieldsOf writesPercentile funcs) field (0 : ℚ) 1
  have highPerm := (map_ite_perm (fieldsOf writesPercentile funcs) field (1 : ℚ) 0).trans
    List.perm_append_comm
  rw [percentileOf_eq lowPerm (pairwise_blocks zero_le_one _ _)] at low
  rw [percentileOf_eq highPerm (pairwise_blocks zero_le_one _ _)] at high
  have below := lt_of_getElem?_blocks_low zero_ne_one low
  have above := le_of_getElem?_blocks_high zero_ne_one high
  simp only [List.length_append, List.length_replicate] at below above
  rw [Nat.sub_add_cancel bound] at above
  rw [Nat.add_sub_cancel' bound] at below
  omega

theorem independent_of_meetsReference {window : Window}
    (listed : ∀ func ∈ funcs, func.Listed) (meets : MeetsReference window funcs) :
    Independent funcs where
  sums := by
    by_contra many
    obtain ⟨field, inside⟩ := List.exists_mem_of_length_pos
      (show 0 < (fieldsOf writesSum funcs).length by omega)
    obtain ⟨func, member, wrote, found⟩ := mem_fieldsOf.mp inside
    have ones := meets.sample_sum (fun _ => 1) member found wrote
    simp only [Int.cast_one, List.map_const', List.sum_replicate, nsmul_eq_mul, mul_one] at ones
    have one : (fieldsOf writesSum funcs).length = 1 := by exact_mod_cast ones
    omega
  mins := by
    intro func member type other inside
    rcases listed func member with isCount | ⟨-, field, found⟩
    · rw [type] at isCount
      cases isCount
    · -- Everything written is at least as large as the minimum of the field, which is one.
      have least := meets.sample_min (fun name => if name = field then 1 else 0) member found type
      have above := (List.min?_eq_some_iff.mp least).2 _ (List.mem_map_of_mem inside)
      by_cases same : other = field
      · rw [found, same]
      · rw [if_pos rfl, if_neg same] at above
        norm_num at above
  maxs := by
    intro func member type other inside
    rcases listed func member with isCount | ⟨-, field, found⟩
    · rw [type] at isCount
      cases isCount
    · have greatest := meets.sample_max (fun name => if name = field then 0 else 1) member found
        type
      have below := (List.max?_eq_some_iff.mp greatest).2 _ (List.mem_map_of_mem inside)
      by_cases same : other = field
      · rw [found, same]
      · rw [if_pos rfl, if_neg same] at below
        norm_num at below
  percentiles := by
    intro field inside other otherInside
    by_contra different
    have first := meets.length_lt inside
    have second := meets.length_lt otherInside
    have both := count_add_count_le different (fieldsOf writesPercentile funcs)
    omega

/-- The functions of a query all get their reference values exactly when they are
    independent. -/
theorem meetsReference_iff (window : Window) (funcs : List AggFunc)
    (listed : ∀ func ∈ funcs, func.Listed) :
    MeetsReference window funcs ↔ Independent funcs :=
  ⟨independent_of_meetsReference listed, meetsReference_of_independent window listed⟩

/-- `count(), sum(bytes), min(bytes), max(bytes), percentile(latency, 95)`. -/
def trafficFuncs : List AggFunc :=
  [{ type := .count }, { type := .sum, field := some "bytes" },
    { type := .min, field := some "bytes" }, { type := .max, field := some "bytes" },
    { type := .percentile, field := some "latency", percentile := 95 }]

/-- All of them write, and none writes into what another one reads. -/
theorem meetsReference_trafficFuncs :
    MeetsReference { type := .none } trafficFuncs ∧ fieldsOf writesSum trafficFuncs = ["bytes"] ∧
      fieldsOf writesMin trafficFuncs = ["bytes", "bytes"] ∧
      fieldsOf writesMax trafficFuncs = ["bytes", "bytes"] ∧
      fieldsOf writesPercentile trafficFuncs = ["latency"] := by
  have listed : ∀ func ∈ trafficFuncs, func.Listed := by simp [trafficFuncs, AggFunc.Listed]
  have independent : Independent trafficFuncs :=
    ⟨by decide, by decide, by decide, by decide⟩
  exact ⟨(meetsReference_iff { type := .none } trafficFuncs listed).mpr independent,
    rfl, rfl, rfl, rfl⟩

/-- `sum(bytes), avg(bytes)`. -/
def sumAvgFuncs : List AggFunc :=
  [{ type := .sum, field := some "bytes" }, { type := .avg, field := some "bytes" }]

/-- One event with five bytes. -/
def bytesRow : Event × Nat :=
  ({ type := .log, timestampNs := 1, input := none,
     data := some (.object [("bytes", .integer 5)]) }, 0)

/-- The average adds to the sum: five bytes are reported as ten. -/
theorem sumAvgFuncs_double :
    aggFuncValue (fillBucket { type := .none } sumAvgFuncs (newBucket 0 none 0 0) [bytesRow])
        { type := .sum, field := some "bytes" } = some (.real 10) ∧
      referenceValue [bytesRow] { type := .sum, field := some "bytes" } = some (.real 5) ∧
      ¬ MeetsReference { type := .none } sumAvgFuncs := by
  have value : readField bytesRow "bytes" = 5 := rfl
  have reference : referenceValue [bytesRow] { type := .sum, field := some "bytes" } =
      some (.real 5) := by
    simp [referenceValue, value]
  have total : (fillBucket { type := .none } sumAvgFuncs (newBucket 0 none 0 0)
      [bytesRow]).sum = 10 := by decide +kernel
  have computed : aggFuncValue (fillBucket { type := .none } sumAvgFuncs (newBucket 0 none 0 0)
      [bytesRow]) { type := .sum, field := some "bytes" } = some (.real 10) := by
    rw [← total]
    rfl
  refine ⟨computed, reference, ?_⟩
  intro meets
  have integers : IntegerRows sumAvgFuncs [bytesRow] := by
    intro row member
    rw [List.mem_singleton.mp member]
    refine ⟨_, rfl, ?_⟩
    intro func inside field found
    refine ⟨5, ?_⟩
    have name : field = "bytes" := by
      rcases List.mem_pair.mp inside with rfl | rfl
      · exact (Option.some.inj found).symm
      · exact (Option.some.inj found).symm
    rw [name]
    rfl
  have same := meets _ _ (newBucket_cleared 0 none 0 0) (List.cons_ne_nil _ _) integers
    { type := .sum, field := some "bytes" } List.mem_cons_self
  rw [computed, reference] at same
  have values : (10 : ℚ) = 5 := Json.real.inj (Option.some.inj same)
  norm_num at values

end Nblex
