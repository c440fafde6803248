import Mathlib.Data.List.Sort
import Mathlib.Tactic.Common

/-!
# `qsort`

A comparator is consistent if it orders its arguments as a total preorder does. With such a one
`qsort` leaves a sorted permutation of its array; in which order it leaves what compares equal is
not said. Of a sorted array that is cut at an index, what is left behind the index comes after what
is in front of it.
-/

namespace Nblex

section Sorting

variable {α : Type}

/-- A comparator: negative, zero and positive for smaller, equal and greater. -/
structure Consistent (cmp : α → α → Int) : Prop where
  swap : ∀ a b, 0 < cmp a b ↔ cmp b a < 0
  trans : ∀ a b c, cmp a b ≤ 0 → cmp b c ≤ 0 → cmp a c ≤ 0

/-- A sort with a comparator. -/
abbrev Qsort (α : Type) := (α → α → Int) → List α → List α

/-- What `qsort` promises. -/
def Sorts (qsort : Qsort α) : Prop :=
  ∀ cmp, Consistent cmp → ∀ xs,
    (qsort cmp xs).Perm xs ∧ (qsort cmp xs).Pairwise fun a b => cmp a b ≤ 0

theorem Consistent.total {cmp : α → α → Int} (consistent : Consistent cmp) (a b : α) :
    cmp a b ≤ 0 ∨ cmp b a ≤ 0 := by
  by_cases greater : 0 < cmp a b
  · exact .inr ((consistent.swap a b).mp greater).le
  · exact .inl (Int.not_lt.mp greater)

/-- A merge sort keeps the order of what compares equal. -/
def stableSort (cmp : α → α → Int) (xs : List α) : List α :=
  xs.mergeSort fun a b => decide (cmp a b ≤ 0)

theorem stableSort_sorts : Sorts (@stableSort α) := by
  intro cmp consistent xs
  refine ⟨List.mergeSort_perm _ _, ?_⟩
  have sorted := @List.pairwise_mergeSort _ (fun a b => decide (cmp a b ≤ 0)) ?_ ?_ xs
  · exact sorted.imp fun le => of_decide_eq_true le
  · intro a b c ab bc
    exact decide_eq_true (consistent.trans a b c (of_decide_eq_true ab) (of_decide_eq_true bc))
  · intro a b
    simpa using consistent.total a b

/-- A sort that puts the elements of a kind behind what compares equal to them. -/
noncomputable def lateSort (late : α → Prop) (cmp : α → α → Int) (xs : List α) : List α :=
  open Classical in
  xs.mergeSort fun a b => decide (cmp a b ≤ 0 ∧ (0 ≤ cmp a b → late a → late b))

theorem lateSort_pairwise (late : α → Prop) {cmp : α → α → Int} (consistent : Consistent cmp)
    (xs : List α) :
    (lateSort late cmp xs).Pairwise fun a b =>
      cmp a b ≤ 0 ∧ (0 ≤ cmp a b → late a → late b) := by
  classical
  have sorted := @List.pairwise_mergeSort _
    (fun a b => decide (cmp a b ≤ 0 ∧ (0 ≤ cmp a b → late a → late b))) ?_ ?_ xs
  · exact sorted.imp fun le => of_decide_eq_true le
  · intro a b c first second
    obtain ⟨ab, lateAB⟩ := of_decide_eq_true first
    obtain ⟨bc, lateBC⟩ := of_decide_eq_true second
    refine decide_eq_true ⟨consistent.trans a b c ab bc, fun equal lateA => ?_⟩
    -- all three compare equal
    have ca : cmp c a ≤ 0 := Int.not_lt.mp fun greater =>
      absurd equal (Int.not_le.mpr ((consistent.swap c a).mp greater))
    have sameAB : 0 ≤ cmp a b := Int.not_lt.mp fun smaller =>
      absurd (consistent.trans b c a bc ca) (Int.not_le.mpr ((consistent.swap b a).mpr smaller))
    have sameBC : 0 ≤ cmp b c := Int.not_lt.mp fun smaller =>
      absurd (consistent.trans c a b ca ab) (Int.not_le.mpr ((consistent.swap c b).mpr smaller))
    exact lateBC sameBC (lateAB sameAB lateA)
  · intro a b
    rw [Bool.or_eq_true, decide_eq_true_eq, decide_eq_true_eq]
    rcases lt_trichotomy (cmp a b) 0 with smaller | equal | greater
    · exact .inl ⟨smaller.le, fun atLeast => absurd smaller (Int.not_lt.mpr atLeast)⟩
    · have ba : cmp b a ≤ 0 := Int.not_lt.mp fun greater => by
        have smaller := (consistent.swap b a).mp greater
        omega
      by_cases lateA : late a
      · exact .inr ⟨ba, fun _ _ => lateA⟩
      · exact .inl ⟨equal.le, fun _ here => absurd here lateA⟩
    · have ba := (consistent.swap a b).mp greater
      exact .inr ⟨ba.le, fun atLeast => absurd ba (Int.not_lt.mpr atLeast)⟩

theorem lateSort_sorts (late : α → Prop) : Sorts (@lateSort α late) := by
  intro cmp consistent xs
  exact ⟨List.mergeSort_perm _ _, (lateSort_pairwise late consistent xs).imp fun both => both.1⟩

/-! ## Cutting -/

/-- What holds of a part at the front is left behind the index as far as the part is longer. -/
theorem countP_drop_of_pairwise {p : α → Bool} {xs : List α}
    (front : xs.Pairwise fun a b => p b = true → p a = true) (n : Nat) :
    (xs.drop n).countP p = xs.countP p - n := by
  induction xs generalizing n with
  | nil => simp
  | cons x xs ih =>
      obtain ⟨here, later⟩ := List.pairwise_cons.mp front
      cases n with
      | zero => simp
      | succ n =>
          rw [List.drop_succ_cons, ih later]
          cases holds : p x with
          | true =>
              rw [List.countP_cons_of_pos holds]
              omega
          | false =>
              have none : xs.countP p = 0 := by
                refine List.countP_eq_zero.mpr fun y member inside => ?_
                rw [here y member inside] at holds
                cases holds
              rw [List.countP_cons_of_neg (by rw [holds]; exact Bool.false_ne_true), none]
              omega

/-- So many elements are behind the index. -/
theorem countP_mem_drop [DecidableEq α] {xs : List α} (nodup : xs.Nodup) (n : Nat) :
    xs.countP (fun x => decide (x ∈ xs.drop n)) = xs.length - n := by
  have apart : ∀ x ∈ xs.take n, x ∉ xs.drop n := fun x front behind =>
    List.disjoint_take_drop nodup (Nat.le_refl n) front behind
  have front : (xs.take n).countP (fun x => decide (x ∈ xs.drop n)) = 0 :=
    List.countP_eq_zero.mpr fun x member inside => apart x member (of_decide_eq_true inside)
  have behind : (xs.drop n).countP (fun x => decide (x ∈ xs.drop n)) = (xs.drop n).length :=
    List.countP_eq_length.mpr fun x member => decide_eq_true member
  calc xs.countP (fun x => decide (x ∈ xs.drop n))
      = (xs.take n ++ xs.drop n).countP (fun x => decide (x ∈ xs.drop n)) := by
        rw [List.take_append_drop]
    _ = xs.length - n := by rw [List.countP_append, front, behind, Nat.zero_add, List.length_drop]

section Cut

variable {cmp : α → α → Int} {xs : List α} {x : α} {n : Nat}

theorem countP_drop_of_sorted (consistent : Consistent cmp)
    (sorted : xs.Pairwise fun a b => cmp a b ≤ 0) (x : α) (n : Nat) :
    (xs.drop n).countP (fun y => decide (cmp y x ≤ 0)) =
      xs.countP (fun y => decide (cmp y x ≤ 0)) - n := by
  refine countP_drop_of_pairwise (sorted.imp fun {a b} le behind => ?_) n
  exact decide_eq_true (consistent.trans a b x le (of_decide_eq_true behind))

/-- So many elements do not come after one that is cut off. -/
theorem Sorts.lt_countP_of_mem_drop {qsort : Qsort α}
    (sorts : Sorts qsort) (consistent : Consistent cmp) (cut : x ∈ (qsort cmp xs).drop n) :
    n < xs.countP fun y => decide (cmp y x ≤ 0) := by
  obtain ⟨perm, sorted⟩ := sorts cmp consistent xs
  have left := countP_drop_of_sorted consistent sorted x n
  have self : cmp x x ≤ 0 := (consistent.total x x).elim id id
  have some : 0 < ((qsort cmp xs).drop n).countP fun y => decide (cmp y x ≤ 0) :=
    List.countP_pos_iff.mpr ⟨x, cut, decide_eq_true self⟩
  rw [← perm.countP_eq]
  omega

/-- What is left in front of the index does not come after what is cut off. -/
theorem Sorts.le_of_mem_drop {qsort : Qsort α}
    (sorts : Sorts qsort) (consistent : Consistent cmp) {y : α} (cut : x ∈ (qsort cmp xs).drop n)
    (member : y ∈ xs) (front : y ∉ (qsort cmp xs).drop n) : cmp y x ≤ 0 := by
  obtain ⟨perm, sorted⟩ := sorts cmp consistent xs
  have inSort := perm.mem_iff.mpr member
  rw [← List.take_append_drop n (qsort cmp xs)] at inSort sorted
  have inFront := (List.mem_append.mp inSort).resolve_right front
  exact (List.pairwise_append.mp sorted).2.2 y inFront x cut

/-- And if so many do not, some sort leaves the element to be cut off. -/
theorem exists_sorts_mem_drop (consistent : Consistent cmp) (member : x ∈ xs)
    (many : n < xs.countP fun y => decide (cmp y x ≤ 0)) :
    ∃ qsort : Qsort α, Sorts qsort ∧ x ∈ (qsort cmp xs).drop n := by
  refine ⟨lateSort (· = x), lateSort_sorts _, ?_⟩
  obtain ⟨perm, sorted⟩ := lateSort_sorts (· = x) cmp consistent xs
  have left := countP_drop_of_sorted consistent sorted x n
  rw [perm.countP_eq] at left
  obtain ⟨y, behind, notAfter⟩ := List.countP_pos_iff.mp (left ▸ Nat.sub_pos_of_lt many)
  by_contra front
  have inSort := perm.mem_iff.mpr member
  rw [← List.take_append_drop n (lateSort (· = x) cmp xs)] at inSort
  have inFront := (List.mem_append.mp inSort).resolve_right front
  have ordered := lateSort_pairwise (· = x) consistent xs
  rw [← List.take_append_drop n (lateSort (· = x) cmp xs)] at ordered
  obtain ⟨-, late⟩ := (List.pairwise_append.mp ordered).2.2 x inFront y behind
  have equal : 0 ≤ cmp x y := Int.not_lt.mp fun smaller =>
    absurd (of_decide_eq_true notAfter) (Int.not_le.mpr ((consistent.swap y x).mpr smaller))
  exact front (late equal rfl ▸ behind)

end Cut

end Sorting

end Nblex
