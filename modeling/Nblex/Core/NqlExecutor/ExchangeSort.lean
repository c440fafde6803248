import Nblex.Core.NqlExecutor.Proofs.Accumulators

/-!
# The loops of the exchange sort

The sort of `create_agg_result_event` as it runs on its array: two loops over positions, where
`exchangeSort` goes over the list by its structure.
-/

namespace Nblex

/-- The body of the inner loop: `values[j]` and `values[k]` are swapped if they are out of order. -/
def exchangeAt (values : List ℚ) (j k : Nat) : List ℚ :=
  match values[j]?, values[k]? with
  | some first, some second =>
      if second < first then (values.set j second).set k first else values
  | _, _ => values

/-- `for (size_t k = j + 1; k < size; k++)`. -/
def exchangeRow (size : Nat) (values : List ℚ) (j : Nat) : List ℚ :=
  (List.range' (j + 1) (size - (j + 1))).foldl (fun values k => exchangeAt values j k) values

/-- `for (size_t j = 0; j < size - 1; j++)`. -/
def exchangeLoops (values : List ℚ) : List ℚ :=
  (List.range (u64Sub values.length 1)).foldl (exchangeRow values.length) values

theorem exchangeAt_here (done seen rest : List ℚ) (x y : ℚ) :
    exchangeAt (done ++ x :: (seen ++ y :: rest)) done.length (done.length + 1 + seen.length) =
      if y < x then done ++ y :: (seen ++ x :: rest) else done ++ x :: (seen ++ y :: rest) := by
  have first : (done ++ x :: (seen ++ y :: rest))[done.length]? = some x := by simp
  have second : (done ++ x :: (seen ++ y :: rest))[done.length + 1 + seen.length]? = some y := by
    rw [List.getElem?_append_right (by omega), Nat.add_assoc, Nat.add_sub_cancel_left,
      Nat.add_comm, List.getElem?_cons_succ]
    simp
  have written : ((done ++ x :: (seen ++ y :: rest)).set done.length y).set
      (done.length + 1 + seen.length) x = done ++ y :: (seen ++ x :: rest) := by
    rw [List.set_append_right _ _ (le_refl _), Nat.sub_self, List.set_cons_zero,
      List.set_append_right _ _ (by omega), Nat.add_assoc, Nat.add_sub_cancel_left, Nat.add_comm,
      List.set_cons_succ, List.set_append_right _ _ (le_refl _), Nat.sub_self, List.set_cons_zero]
  simp only [exchangeAt, first, second, written]

/-- The inner loop from a position on. What it has passed is `seen`. -/
theorem foldl_exchangeAt (done rest : List ℚ) : ∀ (x : ℚ) (seen : List ℚ),
    (List.range' (done.length + 1 + seen.length) rest.length).foldl
        (fun values k => exchangeAt values done.length k) (done ++ x :: (seen ++ rest)) =
      done ++ (exchangeInner x rest).1 :: (seen ++ (exchangeInner x rest).2) := by
  induction rest with
  | nil =>
      intro x seen
      rfl
  | cons y rest ih =>
      intro x seen
      have position : ∀ z : ℚ, done.length + 1 + seen.length + 1 =
          done.length + 1 + (seen ++ [z]).length := by simp [Nat.add_assoc]
      rw [List.length_cons, List.range'_succ, List.foldl_cons, exchangeAt_here]
      by_cases smaller : y < x
      · have later := ih y (seen ++ [x])
        rw [if_pos smaller, position x]
        simpa [exchangeInner, smaller] using later
      · have later := ih x (seen ++ [y])
        rw [if_neg smaller, position y]
        simpa [exchangeInner, smaller] using later

theorem exchangeRow_eq (done rest : List ℚ) (x : ℚ) :
    exchangeRow (done.length + (x :: rest).length) (done ++ x :: rest) done.length =
      done ++ (exchangeInner x rest).1 :: (exchangeInner x rest).2 := by
  have remaining : done.length + (x :: rest).length - (done.length + 1) = rest.length := by
    rw [List.length_cons]
    omega
  rw [exchangeRow, remaining]
  exact foldl_exchangeAt done rest x []

/-- The outer loop from a position on. What it has sorted is `done`. -/
theorem foldl_exchangeRow (n : Nat) : ∀ done rest : List ℚ, rest.length = n + 1 →
    (List.range' done.length n).foldl (exchangeRow (done.length + rest.length)) (done ++ rest) =
      done ++ exchangeSort (n + 1) rest := by
  induction n with
  | zero =>
      intro done rest length
      obtain ⟨x, rfl⟩ := List.length_eq_one_iff.mp length
      rfl
  | succ n ih =>
      intro done rest length
      obtain ⟨x, rest, rfl⟩ := List.exists_cons_of_length_eq_add_one length
      have shorter := (exchangeInner_perm rest x).length_eq
      rw [List.length_cons, List.length_cons] at shorter
      rw [List.length_cons] at length
      have next := ih (done ++ [(exchangeInner x rest).1]) (exchangeInner x rest).2 (by omega)
      have size : (done ++ [(exchangeInner x rest).1]).length + (exchangeInner x rest).2.length =
          done.length + (x :: rest).length := by
        simp only [List.length_append, List.length_cons, List.length_nil]
        omega
      rw [size, List.append_assoc, List.singleton_append] at next
      rw [List.range'_succ, List.foldl_cons, exchangeRow_eq, exchangeSort]
      simpa using next

/-- The loops compute the sort. The bound of the outer one wraps around for no values, which are
    never sorted. -/
theorem exchangeLoops_eq {values : List ℚ} (nonempty : values ≠ []) :
    exchangeLoops values = exchangeSort values.length values := by
  have positive := List.length_pos_of_ne_nil nonempty
  have sorted := foldl_exchangeRow (values.length - 1) [] values (by omega)
  rw [exchangeLoops, u64Sub_of_le positive, List.range_eq_range']
  simpa [Nat.sub_add_cancel positive] using sorted

end Nblex
