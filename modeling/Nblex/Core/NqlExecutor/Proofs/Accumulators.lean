import Nblex.Core.NqlExecutor.Proofs.WellFormed
import Nblex.Misc.OrderStatistics

/-!
# The accumulators of a bucket

All functions of a query write to one set of accumulators. What each accumulator holds is given
by the values written to it; from that, the queries whose functions do not interfere are the
ones that compute the reference aggregates.
-/

namespace Nblex

/-! ## What the functions write -/

/-- The types whose functions add to `sum`. -/
def writesSum : AggFuncType → Bool
  | .sum | .avg => true
  | _ => false

/-- The types whose functions lower `min`. -/
def writesMin : AggFuncType → Bool
  | .sum | .avg | .min => true
  | _ => false

/-- The types whose functions raise `max`. -/
def writesMax : AggFuncType → Bool
  | .sum | .avg | .max => true
  | _ => false

/-- The types whose functions append to `percentile_values`. -/
def writesPercentile : AggFuncType → Bool
  | .percentile => true
  | _ => false

/-- The fields that the functions of the given types read, in the order of the functions. -/
def fieldsOf (writes : AggFuncType → Bool) (funcs : List AggFunc) : List String :=
  funcs.filterMap (fun func => if writes func.type then func.field else none)

theorem fieldsOf_cons (writes : AggFuncType → Bool) (func : AggFunc) (funcs : List AggFunc) :
    fieldsOf writes (func :: funcs) = fieldsOf writes [func] ++ fieldsOf writes funcs := by
  rw [fieldsOf, fieldsOf, fieldsOf, ← List.filterMap_append, List.singleton_append]

theorem mem_fieldsOf {writes : AggFuncType → Bool} {funcs : List AggFunc} {field : String} :
    field ∈ fieldsOf writes funcs ↔
      ∃ func ∈ funcs, writes func.type = true ∧ func.field = some field := by
  simp only [fieldsOf, List.mem_filterMap]
  constructor
  · rintro ⟨func, member, found⟩
    by_cases wrote : writes func.type = true
    · rw [if_pos wrote] at found
      exact ⟨func, member, wrote, found⟩
    · rw [if_neg wrote] at found
      cases found
  · rintro ⟨func, member, wrote, field⟩
    exact ⟨func, member, by rw [if_pos wrote, field]⟩

/-- The accumulators of a bucket hold what was written to them: `values writes` are the values
    written by functions of these types, in order. -/
structure Accumulated (bucket : Bucket) (values : (AggFuncType → Bool) → List ℚ) : Prop where
  sum : bucket.sum = (values writesSum).sum
  min : bucket.min = (values writesMin).min?
  max : bucket.max = (values writesMax).max?
  percentileValues : bucket.percentileValues = values writesPercentile

theorem minWith_min? (values : List ℚ) (value : ℚ) :
    minWith values.min? value = (values ++ [value]).min? := by
  rw [min?_concat]
  cases values.min? with
  | none => rfl
  | some old =>
      simp only [minWith, Option.elim_some]
      by_cases smaller : value < old
      · rw [if_pos smaller, min_eq_right smaller.le]
      · rw [if_neg smaller, min_eq_left (not_lt.mp smaller)]

theorem maxWith_max? (values : List ℚ) (value : ℚ) :
    maxWith values.max? value = (values ++ [value]).max? := by
  rw [max?_concat]
  cases values.max? with
  | none => rfl
  | some old =>
      simp only [maxWith, Option.elim_some]
      by_cases larger : old < value
      · rw [if_pos larger, max_eq_right larger.le]
      · rw [if_neg larger, max_eq_left (not_lt.mp larger)]

/-- One function writes the value of its field to the accumulators of its type. -/
theorem Accumulated.func {bucket : Bucket} {values : (AggFuncType → Bool) → List ℚ}
    (acc : Accumulated bucket values) (data : Json) (func : AggFunc) :
    Accumulated (updateWithFunc data bucket func) (fun writes =>
      values writes ++ (fieldsOf writes [func]).map (getNumericValue data)) := by
  obtain ⟨sum, min, max, percentiles⟩ := acc
  obtain ⟨type, field, percentile⟩ := func
  cases field with
  | none => cases type <;> constructor <;> simpa [updateWithFunc, fieldsOf]
  | some field =>
      cases type with
      | count =>
          constructor <;> simpa [updateWithFunc, fieldsOf, writesSum, writesMin, writesMax,
            writesPercentile]
      | sum | avg | min | max | percentile =>
          constructor <;> simp [updateWithFunc, updateWithValue, fieldsOf, writesSum, writesMin,
            writesMax, writesPercentile, sum, min, max, percentiles, minWith_min?, maxWith_max?]
      | distinct =>
          simp only [updateWithFunc, updateWithValue]
          split <;> constructor <;> simpa [fieldsOf, writesSum, writesMin, writesMax,
            writesPercentile]

/-- The functions of a query write one after the other. -/
theorem Accumulated.funcs (data : Json) (funcs : List AggFunc) :
    ∀ {bucket : Bucket} {values : (AggFuncType → Bool) → List ℚ}, Accumulated bucket values →
      Accumulated (funcs.foldl (updateWithFunc data) bucket) (fun writes =>
        values writes ++ (fieldsOf writes funcs).map (getNumericValue data)) := by
  induction funcs with
  | nil =>
      intro bucket values acc
      simpa [fieldsOf] using acc
  | cons func funcs ih =>
      intro bucket values acc
      have rest := ih (acc.func data func)
      simpa only [List.foldl_cons, fieldsOf_cons _ func funcs, List.map_append,
        List.append_assoc] using rest

/-! ## Filling a bucket -/

/-- The value an event has in a field. An event comes with the clock reading at its update. -/
def readField (row : Event × Nat) (field : String) : ℚ :=
  getNumericValue (row.1.data.getD .null) field

/-- Count a sequence of events in a bucket. -/
def fillBucket (window : Window) (funcs : List AggFunc) (bucket : Bucket)
    (rows : List (Event × Nat)) : Bucket :=
  rows.foldl (fun bucket row => updateBucketWithEvent window funcs bucket row.1 row.2) bucket

/-- Nothing has been counted in the bucket. -/
structure Bucket.Cleared (bucket : Bucket) : Prop where
  count : bucket.count = 0
  sum : bucket.sum = 0
  min : bucket.min = none
  max : bucket.max = none
  percentileValues : bucket.percentileValues = []

theorem newBucket_cleared (addr : Nat) (keys : Option (List String)) (start stop : Nat) :
    (newBucket addr keys start stop).Cleared := ⟨rfl, rfl, rfl, rfl, rfl⟩

theorem Bucket.Cleared.accumulated {bucket : Bucket} (cleared : bucket.Cleared) :
    Accumulated bucket (fun _ => []) :=
  ⟨cleared.sum, cleared.min, cleared.max, cleared.percentileValues⟩

section Fill

variable (window : Window) (funcs : List AggFunc)

theorem Accumulated.event {bucket : Bucket} {values : (AggFuncType → Bool) → List ℚ}
    (acc : Accumulated bucket values) (row : Event × Nat) :
    Accumulated (updateBucketWithEvent window funcs bucket row.1 row.2) (fun writes =>
      values writes ++ (fieldsOf writes funcs).map (readField row)) := by
  unfold updateBucketWithEvent
  apply Accumulated.funcs
  split
  · exact ⟨acc.sum, acc.min, acc.max, acc.percentileValues⟩
  · exact ⟨acc.sum, acc.min, acc.max, acc.percentileValues⟩

theorem Accumulated.fill {rows : List (Event × Nat)} :
    ∀ {bucket : Bucket} {values : (AggFuncType → Bool) → List ℚ}, Accumulated bucket values →
      Accumulated (fillBucket window funcs bucket rows) (fun writes =>
        values writes ++ rows.flatMap
          (fun row => (fieldsOf writes funcs).map (readField row))) := by
  induction rows with
  | nil =>
      intro bucket values acc
      simpa [fillBucket] using acc
  | cons row rows ih =>
      intro bucket values acc
      have rest := ih (acc.event window funcs row)
      simpa only [fillBucket, List.foldl_cons, List.flatMap_cons, List.append_assoc] using rest

theorem fillBucket_count {rows : List (Event × Nat)} :
    ∀ bucket : Bucket, (fillBucket window funcs bucket rows).count =
      bucket.count + rows.length := by
  induction rows with
  | nil =>
      intro bucket
      rfl
  | cons row rows ih =>
      intro bucket
      have rest := ih (updateBucketWithEvent window funcs bucket row.1 row.2)
      rw [updateBucketWithEvent_count] at rest
      rw [List.length_cons]
      exact rest.trans (by omega)

end Fill

/-- Integers that are close are the same. -/
theorem closeTo_intCast (m n : ℤ) : closeTo m n = true ↔ m = n := by
  rw [closeTo, decide_eq_true_eq]
  constructor
  · intro close
    by_contra different
    have apart : (1 : ℚ) ≤ |((m - n : ℤ) : ℚ)| := by
      rw [← Int.cast_abs]
      exact_mod_cast Int.one_le_abs (sub_ne_zero.mpr different)
    push_cast at apart
    linarith
  · rintro rfl
    norm_num

/-! ## Percentiles -/

theorem exchangeInner_perm (xs : List ℚ) :
    ∀ x : ℚ, ((exchangeInner x xs).1 :: (exchangeInner x xs).2).Perm (x :: xs) := by
  induction xs with
  | nil =>
      intro x
      exact List.Perm.refl _
  | cons y ys ih =>
      intro x
      unfold exchangeInner
      by_cases smaller : y < x
      · rw [if_pos smaller]
        exact (List.Perm.swap _ _ _).trans ((ih y).cons x)
      · rw [if_neg smaller]
        exact ((List.Perm.swap _ _ _).trans ((ih x).cons y)).trans (List.Perm.swap _ _ _)

theorem exchangeInner_le (xs : List ℚ) :
    ∀ x : ℚ, (exchangeInner x xs).1 ≤ x ∧
      ∀ y ∈ (exchangeInner x xs).2, (exchangeInner x xs).1 ≤ y := by
  induction xs with
  | nil =>
      intro x
      exact ⟨le_rfl, by simp [exchangeInner]⟩
  | cons y ys ih =>
      intro x
      unfold exchangeInner
      by_cases smaller : y < x
      · rw [if_pos smaller]
        obtain ⟨least, rest⟩ := ih y
        refine ⟨least.trans smaller.le, ?_⟩
        intro z member
        rcases List.mem_cons.mp member with rfl | member
        · exact least.trans smaller.le
        · exact rest z member
      · rw [if_neg smaller]
        obtain ⟨least, rest⟩ := ih x
        refine ⟨least, ?_⟩
        intro z member
        rcases List.mem_cons.mp member with rfl | member
        · exact least.trans (not_lt.mp smaller)
        · exact rest z member

/-- The exchange sort sorts. -/
theorem exchangeSort_sorts :
    ∀ (n : Nat) (xs : List ℚ), xs.length ≤ n →
      (exchangeSort n xs).Perm xs ∧ (exchangeSort n xs).Pairwise (· ≤ ·) := by
  intro n
  induction n with
  | zero =>
      intro xs short
      rw [List.length_eq_zero_iff.mp (Nat.le_zero.mp short)]
      exact ⟨List.Perm.refl _, List.Pairwise.nil⟩
  | succ n ih =>
      intro xs short
      cases xs with
      | nil => exact ⟨List.Perm.refl _, List.Pairwise.nil⟩
      | cons x xs =>
          have inner := exchangeInner_perm xs x
          have least := (exchangeInner_le xs x).2
          have length := inner.length_eq
          rw [List.length_cons, List.length_cons] at length
          rw [List.length_cons] at short
          obtain ⟨perm, sorted⟩ := ih (exchangeInner x xs).2 (by omega)
          simp only [exchangeSort]
          refine ⟨(perm.cons _).trans inner, ?_⟩
          rw [List.pairwise_cons]
          refine ⟨?_, sorted⟩
          intro y member
          exact least y (perm.mem_iff.mp member)

/-- A percentile is read off any sorted arrangement of the values. -/
theorem percentileOf_eq {values sorted : List ℚ} (perm : values.Perm sorted)
    (order : sorted.Pairwise (· ≤ ·)) (percentile : ℚ) :
    percentileOf values percentile = sorted[percentileIndex percentile sorted.length]? := by
  obtain ⟨sortPerm, sortOrder⟩ := exchangeSort_sorts values.length values le_rfl
  have same : exchangeSort values.length values = sorted :=
    (sortPerm.trans perm).eq_of_pairwise' sortOrder order
  rw [percentileOf, same, perm.length_eq]

/-- The position of a percentile scales with the number of values. -/
theorem percentileIndex_mul {k : Nat} (positive : 0 < k) (percentile : ℚ) {size : Nat}
    (nonempty : 0 < size) :
    percentileIndex percentile (k * size) / k = percentileIndex percentile size := by
  have scaled : percentile / 100 * ((k * size : Nat) : ℚ) =
      (k : ℚ) * (percentile / 100 * (size : ℚ)) := by
    push_cast
    ring
  have floors := floor_mul_div positive (percentile / 100 * (size : ℚ))
  simp only [percentileIndex, scaled]
  rw [← floors]
  generalize ⌊(k : ℚ) * (percentile / 100 * (size : ℚ))⌋.toNat = index
  by_cases beyond : k * size ≤ index
  · have whole : size ≤ index / k := (Nat.le_div_iff_mul_le positive).mpr (by
      rw [Nat.mul_comm]
      exact beyond)
    rw [if_pos beyond, if_pos whole]
    rw [Nat.mul_sub_div 0 k size (Nat.mul_pos positive nonempty), Nat.zero_div]
  · have inside : ¬ size ≤ index / k := by
      rw [Nat.le_div_iff_mul_le positive, Nat.mul_comm]
      exact beyond
    rw [if_neg beyond, if_neg inside]

/-- Counting every value the same number of times keeps the percentiles. -/
theorem percentileOf_repeat {k : Nat} (positive : 0 < k) {values : List ℚ}
    (nonempty : values ≠ []) (percentile : ℚ) :
    percentileOf (values.flatMap (List.replicate k)) percentile =
      percentileOf values percentile := by
  obtain ⟨perm, order⟩ := exchangeSort_sorts values.length values le_rfl
  have size : 0 < (exchangeSort values.length values).length := by
    rw [perm.length_eq]
    exact List.length_pos_of_ne_nil nonempty
  rw [percentileOf_eq perm.symm order,
    percentileOf_eq (perm.symm.flatMap_right _) (pairwise_flatMap_replicate k order),
    getElem?_flatMap_replicate positive, length_flatMap_replicate,
    percentileIndex_mul positive percentile size]

end Nblex
