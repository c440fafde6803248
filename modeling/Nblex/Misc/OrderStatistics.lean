import Mathlib.Data.List.Sort
import Mathlib.Algebra.Order.Floor.Semifield
import Mathlib.Data.Rat.Floor

/-!
# Order statistics of repeated and of two-valued lists

The `i`-th smallest element of a list is read off any sorted permutation of it. Repeating every
element the same number of times keeps the element at a scaled position, and a list of two
values sorts into two blocks.
-/

namespace Nblex

section Repeat

variable {α : Type*}

/-- Position `i` of a list whose elements are repeated `k` times each. -/
theorem getElem?_flatMap_replicate {k : Nat} (positive : 0 < k) :
    ∀ (xs : List α) (i : Nat), (xs.flatMap (List.replicate k))[i]? = xs[i / k]? := by
  intro xs
  induction xs with
  | nil =>
      intro i
      simp
  | cons x xs ih =>
      intro i
      rw [List.flatMap_cons]
      by_cases first : i < k
      · rw [List.getElem?_append_left (by simpa using first), Nat.div_eq_of_lt first]
        simp [first]
      · rw [List.getElem?_append_right (by simpa using first), List.length_replicate, ih]
        have shift : i / k = (i - k) / k + 1 := by
          rw [Nat.div_eq_sub_div positive (by omega)]
        rw [shift, List.getElem?_cons_succ]

theorem length_flatMap_replicate (k : Nat) (xs : List α) :
    (xs.flatMap (List.replicate k)).length = k * xs.length := by
  induction xs with
  | nil => simp
  | cons x xs ih =>
      rw [List.flatMap_cons, List.length_append, ih, List.length_replicate, List.length_cons]
      ring

theorem pairwise_flatMap_replicate [Preorder α] (k : Nat) {xs : List α}
    (sorted : xs.Pairwise (· ≤ ·)) : (xs.flatMap (List.replicate k)).Pairwise (· ≤ ·) := by
  rw [List.pairwise_flatMap]
  refine ⟨?_, sorted.imp ?_⟩
  · intro x _
    rw [List.pairwise_replicate]
    exact Or.inr le_rfl
  · intro x y le a inFirst b inSecond
    rw [List.eq_of_mem_replicate inFirst, List.eq_of_mem_replicate inSecond]
    exact le

end Repeat

/-- A position given as a fraction of the length is scaled with the length. -/
theorem floor_mul_div {k : Nat} (positive : 0 < k) (q : ℚ) :
    ⌊(k : ℚ) * q⌋.toNat / k = ⌊q⌋.toNat := by
  have nonzero : (k : ℚ) ≠ 0 := by
    have := positive.ne'
    exact_mod_cast this
  rw [Int.floor_toNat, Int.floor_toNat, ← Nat.floor_div_natCast, mul_div_cancel_left₀ q nonzero]

section TwoValues

variable {α β : Type*} [DecidableEq α]

/-- A list that takes one value on `a` and another elsewhere is a permutation of two blocks. -/
theorem map_ite_perm (xs : List α) (a : α) (here there : β) :
    (xs.map (fun x => if x = a then here else there)).Perm
      (List.replicate (xs.count a) here ++ List.replicate (xs.length - xs.count a) there) := by
  induction xs with
  | nil => simp
  | cons x xs ih =>
      have bound : xs.count a ≤ xs.length := List.count_le_length
      by_cases same : x = a
      · rw [List.map_cons, if_pos same, same, List.count_cons_self, List.length_cons,
          Nat.add_sub_add_right]
        exact ih.cons here
      · rw [List.map_cons, if_neg same, List.count_cons_of_ne same, List.length_cons,
          Nat.succ_sub bound]
        refine (ih.cons there).trans ?_
        exact List.perm_middle.symm

/-- Two different elements cannot both fill more than half of a list. -/
theorem count_add_count_le {a b : α} (different : a ≠ b) (xs : List α) :
    xs.count a + xs.count b ≤ xs.length := by
  induction xs with
  | nil => simp
  | cons x xs ih =>
      rw [List.length_cons]
      by_cases first : x = a
      · rw [first, List.count_cons_self, List.count_cons_of_ne different]
        omega
      · by_cases second : x = b
        · rw [second, List.count_cons_self, List.count_cons_of_ne (Ne.symm different)]
          omega
        · rw [List.count_cons_of_ne first, List.count_cons_of_ne second]
          omega

end TwoValues

/-- Two blocks in order are sorted. -/
theorem pairwise_blocks {α : Type*} [Preorder α] {low high : α} (le : low ≤ high) (m n : Nat) :
    (List.replicate m low ++ List.replicate n high).Pairwise (· ≤ ·) := by
  rw [List.pairwise_append]
  refine ⟨?_, ?_, ?_⟩
  · rw [List.pairwise_replicate]
    exact Or.inr le_rfl
  · rw [List.pairwise_replicate]
    exact Or.inr le_rfl
  · intro a inFirst b inSecond
    rw [List.eq_of_mem_replicate inFirst, List.eq_of_mem_replicate inSecond]
    exact le

/-- The low block ends at its length. -/
theorem lt_of_getElem?_blocks_low {α : Type*} {low high : α} (different : low ≠ high)
    {m n i : Nat}
    (h : (List.replicate m low ++ List.replicate n high)[i]? = some low) : i < m := by
  by_contra outside
  rw [List.getElem?_append_right (by simpa using outside)] at h
  exact different (List.eq_of_mem_replicate (List.mem_of_getElem? h))

/-- The high block starts after the low one. -/
theorem le_of_getElem?_blocks_high {α : Type*} {low high : α} (different : low ≠ high)
    {m n i : Nat}
    (h : (List.replicate m low ++ List.replicate n high)[i]? = some high) : m ≤ i := by
  by_contra inside
  rw [List.getElem?_append_left (by simpa using inside)] at h
  exact different (List.eq_of_mem_replicate (List.mem_of_getElem? h)).symm

section Rank

variable {α : Type*} [LinearOrder α] {xs : List α} {i : Nat}

/-- At most `i` elements of a sorted list are below the one at position `i`. -/
theorem countP_lt_getElem_le (sorted : xs.Pairwise (· ≤ ·)) (inside : i < xs.length) :
    xs.countP (fun x => decide (x < xs[i])) ≤ i := by
  have after : ∀ y ∈ xs.drop i, ¬decide (y < xs[i]) = true := by
    have tail := sorted.drop (i := i)
    rw [List.drop_eq_getElem_cons inside] at tail ⊢
    intro y member
    rcases List.mem_cons.mp member with rfl | later
    · simp
    · simpa using (List.pairwise_cons.mp tail).1 y later
  calc xs.countP (fun x => decide (x < xs[i]))
      = (xs.take i).countP (fun x => decide (x < xs[i])) +
          (xs.drop i).countP (fun x => decide (x < xs[i])) := by
        rw [← List.countP_append, List.take_append_drop]
    _ = (xs.take i).countP (fun x => decide (x < xs[i])) := by
        rw [List.countP_eq_zero.mpr after, Nat.add_zero]
    _ ≤ (xs.take i).length := List.countP_le_length
    _ ≤ i := List.length_take_le _ _

/-- More than `i` elements of a sorted list are not above the one at position `i`. -/
theorem lt_countP_le_getElem (sorted : xs.Pairwise (· ≤ ·)) (inside : i < xs.length) :
    i < xs.countP (fun x => decide (x ≤ xs[i])) := by
  have upTo : ∀ y ∈ xs.take (i + 1), decide (y ≤ xs[i]) = true := by
    intro y member
    obtain ⟨k, below, rfl⟩ := List.mem_take_iff_getElem.mp member
    have before : k ≤ i := by omega
    rcases Nat.eq_or_lt_of_le before with rfl | earlier
    · simp
    · simpa using List.pairwise_iff_getElem.mp sorted k i _ inside earlier
  calc i < (xs.take (i + 1)).length := by
        rw [List.length_take]
        omega
    _ = (xs.take (i + 1)).countP (fun x => decide (x ≤ xs[i])) :=
        (List.countP_eq_length.mpr upTo).symm
    _ ≤ xs.countP (fun x => decide (x ≤ xs[i])) := (List.take_sublist _ _).countP_le

/-- A sorted list is non-decreasing in the position. -/
theorem getElem_le_getElem_of_le (sorted : xs.Pairwise (· ≤ ·)) {j : Nat} (le : i ≤ j)
    (inside : j < xs.length) (inside' : i < xs.length) : xs[i] ≤ xs[j] := by
  rcases Nat.eq_or_lt_of_le le with rfl | earlier
  · exact le_rfl
  · exact List.pairwise_iff_getElem.mp sorted i j _ inside earlier

end Rank

section MinMax

variable {α : Type*} [LinearOrder α]

theorem min?_concat (xs : List α) (x : α) :
    (xs ++ [x]).min? = some (xs.min?.elim x (fun least => min least x)) := by
  cases xs with
  | nil => rfl
  | cons y ys =>
      rw [List.cons_append, List.min?_cons', List.min?_cons', List.foldl_append]
      rfl

theorem max?_concat (xs : List α) (x : α) :
    (xs ++ [x]).max? = some (xs.max?.elim x (fun greatest => max greatest x)) := by
  cases xs with
  | nil => rfl
  | cons y ys =>
      rw [List.cons_append, List.max?_cons', List.max?_cons', List.foldl_append]
      rfl

/-- The minimum depends on the elements only, not on their number or order. -/
theorem min?_congr {xs ys : List α} (h : ∀ a, a ∈ xs ↔ a ∈ ys) : xs.min? = ys.min? := by
  ext a
  rw [List.min?_eq_some_iff, List.min?_eq_some_iff]
  simp only [h]

theorem max?_congr {xs ys : List α} (h : ∀ a, a ∈ xs ↔ a ∈ ys) : xs.max? = ys.max? := by
  ext a
  rw [List.max?_eq_some_iff, List.max?_eq_some_iff]
  simp only [h]

end MinMax

end Nblex
