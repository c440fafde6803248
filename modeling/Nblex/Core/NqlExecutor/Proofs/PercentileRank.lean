import Nblex.Core.NqlExecutor.ExchangeSort

/-!
# The rank of a percentile

The value of a percentile has the rank that the percentile asks for, among any values, in whatever
order they came.
-/

namespace Nblex

/-- For percentiles between 0 and 100, the position is the percentile's share of the size, rounded
    down, unless that is the size. -/
theorem percentileIndex_eq {percentile : ℚ} (notBelow : 0 ≤ percentile)
    (notAbove : percentile ≤ 100)
    {size : Nat} (nonempty : 0 < size) :
    (percentileIndex percentile size : ℚ) ≤ percentile * size / 100 ∧
      percentile * size / 100 ≤ percentileIndex percentile size + 1 ∧
      percentileIndex percentile size < size := by
  have sizePos : (0 : ℚ) < size := by exact_mod_cast nonempty
  have share : percentile / 100 * size = percentile * size / 100 := by ring
  have nonneg : 0 ≤ percentile * size / 100 := by positivity
  have most : percentile * size / 100 ≤ size := by
    rw [div_le_iff₀ (by norm_num)]
    nlinarith
  rw [percentileIndex, share, Int.floor_toNat]
  have lower : (⌊percentile * size / 100⌋₊ : ℚ) ≤ percentile * size / 100 := Nat.floor_le nonneg
  have upper : percentile * size / 100 < ⌊percentile * size / 100⌋₊ + 1 := Nat.lt_floor_add_one _
  by_cases whole : size ≤ ⌊percentile * size / 100⌋₊
  · have last : ((size - 1 : Nat) : ℚ) = size - 1 := by
      rw [Nat.cast_sub nonempty, Nat.cast_one]
    have reaches : (size : ℚ) ≤ percentile * size / 100 := (Nat.cast_le.mpr whole).trans lower
    simp only [if_pos whole, last]
    refine ⟨by linarith, by linarith, by omega⟩
  · simp only [if_neg whole]
    exact ⟨lower, upper.le, Nat.lt_of_not_le whole⟩

/-- A greater percentile has no smaller position. -/
theorem percentileIndex_mono {percentile percentile' : ℚ} (le : percentile ≤ percentile')
    (size : Nat) : percentileIndex percentile size ≤ percentileIndex percentile' size := by
  have shares : percentile / 100 * (size : ℚ) ≤ percentile' / 100 * size := by gcongr
  have floors : ⌊percentile / 100 * (size : ℚ)⌋.toNat ≤ ⌊percentile' / 100 * (size : ℚ)⌋.toNat :=
    Int.toNat_le_toNat (Int.floor_le_floor shares)
  unfold percentileIndex
  dsimp only
  split
  · split
    · exact le_rfl
    · omega
  · split
    · omega
    · exact floors

/-- `r` has the rank that a percentile asks for: not more than its share of the values are below
    `r`, and at least that share is not above. -/
structure HasRank (values : List ℚ) (percentile : ℚ) (r : ℚ) : Prop where
  member : r ∈ values
  below : (values.countP (fun v => decide (v < r)) : ℚ) ≤ percentile * values.length / 100
  notAbove : percentile * values.length / 100 ≤ values.countP (fun v => decide (v ≤ r))

theorem HasRank.perm {values values' : List ℚ} (perm : values.Perm values') {percentile r : ℚ}
    (rank : HasRank values percentile r) : HasRank values' percentile r := by
  refine ⟨perm.mem_iff.mp rank.member, ?_, ?_⟩
  · rw [← perm.countP_eq, ← perm.length_eq]
    exact rank.below
  · rw [← perm.countP_eq, ← perm.length_eq]
    exact rank.notAbove

/-- The element of a sorted list at the position of a percentile. -/
theorem hasRank_sorted {sorted : List ℚ} (order : sorted.Pairwise (· ≤ ·)) {percentile : ℚ}
    (notBelow : 0 ≤ percentile) (notAbove : percentile ≤ 100)
    (inside : percentileIndex percentile sorted.length < sorted.length) :
    HasRank sorted percentile sorted[percentileIndex percentile sorted.length] := by
  obtain ⟨lower, upper, -⟩ :=
    percentileIndex_eq notBelow notAbove (Nat.lt_of_le_of_lt (Nat.zero_le _) inside)
  refine ⟨List.getElem_mem inside, ?_, ?_⟩
  · exact (Nat.cast_le.mpr (countP_lt_getElem_le order inside)).trans lower
  · have counted : percentileIndex percentile sorted.length + 1 ≤ sorted.countP _ :=
      lt_countP_le_getElem order inside
    refine upper.trans ?_
    exact_mod_cast counted

/-- `percentile(field, percentile)`. -/
def percentileFunc (field : String) (percentile : ℚ) : AggFunc where
  type := .percentile
  field := some field
  percentile := .finite percentile

/-- The value of a percentile of the values in a bucket is one of them and has the rank that the
    percentile asks for. It does not depend on the order of the values, and a greater percentile
    has no smaller value. -/
theorem percentile_hasRank (field : String) {percentile : ℚ} (notBelow : 0 ≤ percentile)
    (notAbove : percentile ≤ 100) {bucket : Bucket} (nonempty : bucket.percentileValues ≠ []) :
    ∃ r, aggFuncValue bucket (percentileFunc field percentile) = some (.real r) ∧
      (exchangeLoops bucket.percentileValues)[percentileIndex percentile
        bucket.percentileValues.length]? = some r ∧
      HasRank bucket.percentileValues percentile r ∧
      (∀ bucket' : Bucket, bucket.percentileValues.Perm bucket'.percentileValues →
        aggFuncValue bucket' (percentileFunc field percentile) = some (.real r)) ∧
      ∀ percentile', percentile ≤ percentile' → percentile' ≤ 100 →
        ∃ r', aggFuncValue bucket (percentileFunc field percentile') = some (.real r') ∧
          r ≤ r' := by
  obtain ⟨perm, order⟩ :=
    exchangeSort_sorts bucket.percentileValues.length bucket.percentileValues le_rfl
  have loops := exchangeLoops_eq nonempty
  generalize exchangeSort bucket.percentileValues.length bucket.percentileValues = sorted at *
  have positive : 0 < sorted.length := by
    rw [perm.length_eq]
    exact List.length_pos_of_ne_nil nonempty
  have inside : ∀ {p : ℚ}, 0 ≤ p → p ≤ 100 → percentileIndex p sorted.length < sorted.length :=
    fun low high => (percentileIndex_eq low high positive).2.2
  have value : ∀ {bucket' : Bucket} {p : ℚ}, bucket'.percentileValues.Perm sorted →
      (low : 0 ≤ p) → (high : p ≤ 100) →
      aggFuncValue bucket' (percentileFunc field p) =
        some (.real (sorted.get ⟨percentileIndex p sorted.length, inside low high⟩)) := by
    intro bucket' p same low high
    show ((percentileOf bucket'.percentileValues p).map Json.real) = _
    rw [percentileOf_eq same order, List.getElem?_eq_getElem (inside low high)]
    rfl
  refine ⟨sorted.get ⟨percentileIndex percentile sorted.length, inside notBelow notAbove⟩,
    value perm.symm notBelow notAbove, ?_, ?_, ?_, ?_⟩
  · rw [loops, ← perm.length_eq]
    exact List.getElem?_eq_getElem _
  · exact (hasRank_sorted order notBelow notAbove _).perm perm
  · intro bucket' same
    exact value (same.symm.trans perm.symm) notBelow notAbove
  · intro percentile' le high
    refine ⟨_, value perm.symm (notBelow.trans le) high, ?_⟩
    exact getElem_le_getElem_of_le order (percentileIndex_mono le _) _ _

/-- Three latencies, two of them the same. -/
def latencyBucket : Bucket :=
  { newBucket 0 none 0 u64Max with count := 3, percentileValues := [20, 10, 20] }

theorem percentile_hasRank_latencyBucket :
    ∃ r, aggFuncValue latencyBucket (percentileFunc "latency" 50) = some (.real r) ∧
      HasRank latencyBucket.percentileValues 50 r := by
  obtain ⟨r, value, -, rank, -⟩ :=
    @percentile_hasRank "latency" 50 (by norm_num) (by norm_num) latencyBucket (by decide)
  exact ⟨r, value, rank⟩

end Nblex
