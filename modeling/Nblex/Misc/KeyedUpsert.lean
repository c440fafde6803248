import Nblex.Misc.Upsert
import Mathlib.Data.List.Perm.Basic

/-!
# Upserts under keys

A list of records, each under a key that no update changes. An operation updates the first record
under its key or puts an updated new one in front. Where the updates commute, the operations of a
list may be done in any order: the records under each key come out the same.
-/

namespace Nblex

variable {α κ ε : Type} [DecidableEq κ]

/-- The records under a key, in their order. -/
def recordsUnder (key : α → κ) (k : κ) (xs : List α) : List α :=
  xs.filter fun x => decide (key x = k)

/-- The first record of a list updated, or an updated new one. -/
def onFirst (new : α) (f : α → α) : List α → List α
  | [] => [f new]
  | x :: xs => f x :: xs

/-- The operations of a list, one after the other. -/
def upsertAll (key : α → κ) (keyOf : ε → κ) (new : κ → α) (update : ε → α → α) (es : List ε)
    (xs : List α) : List α :=
  es.foldl (fun xs e =>
    upsert (fun x => decide (key x = keyOf e)) (new (keyOf e)) (update e) xs) xs

section Records

variable {key : α → κ} {k : κ}

theorem recordsUnder_cons_of_eq {x : α} (same : key x = k) (xs : List α) :
    recordsUnder key k (x :: xs) = x :: recordsUnder key k xs := by
  simp [recordsUnder, same]

theorem recordsUnder_cons_of_ne {x : α} (different : key x ≠ k) (xs : List α) :
    recordsUnder key k (x :: xs) = recordsUnder key k xs := by
  simp [recordsUnder, different]

theorem recordsUnder_touch {f : α → α} (keeps : ∀ x, key (f x) = key x) (xs : List α) :
    (touch (fun x => decide (key x = k)) f xs).map (recordsUnder key k) =
      match recordsUnder key k xs with
      | [] => none
      | x :: rest => some (f x :: rest) := by
  induction xs with
  | nil => rfl
  | cons x xs ih =>
      rw [touch]
      by_cases here : key x = k
      · rw [if_pos (decide_eq_true here), recordsUnder_cons_of_eq here, Option.map_some,
          recordsUnder_cons_of_eq ((keeps x).trans here)]
      · rw [if_neg (by simpa using here), recordsUnder_cons_of_ne here, ← ih, Option.map_map]
        refine congrArg (Option.map · _) (funext fun ys => ?_)
        exact recordsUnder_cons_of_ne here ys

/-- Under its own key an upsert is an update of the first record. -/
theorem recordsUnder_upsert {new : α} {f : α → α} (keeps : ∀ x, key (f x) = key x)
    (fresh : key new = k) (xs : List α) :
    recordsUnder key k (upsert (fun x => decide (key x = k)) new f xs) =
      onFirst new f (recordsUnder key k xs) := by
  have touched := recordsUnder_touch (k := k) keeps xs
  rw [upsert]
  cases search : touch (fun x => decide (key x = k)) f xs with
  | none =>
      rw [search] at touched
      cases under : recordsUnder key k xs with
      | nil =>
          rw [Option.getD_none, recordsUnder_cons_of_eq ((keeps new).trans fresh), under]
          rfl
      | cons x rest => simp [under] at touched
  | some ys =>
      rw [search] at touched
      cases under : recordsUnder key k xs with
      | nil => simp [under] at touched
      | cons x rest =>
          rw [under] at touched
          exact Option.some.inj touched

/-- Under the other keys it changes nothing. -/
theorem recordsUnder_upsert_of_ne {other : κ} {new : α} {f : α → α}
    (keeps : ∀ x, key (f x) = key x) (fresh : key new = k) (different : k ≠ other)
    (xs : List α) :
    recordsUnder key other (upsert (fun x => decide (key x = k)) new f xs) =
      recordsUnder key other xs := by
  cases search : xs.find? (fun x => decide (key x = k)) with
  | none =>
      rw [upsert, touch_of_find_none search, Option.getD_none]
      exact recordsUnder_cons_of_ne (by rwa [keeps, fresh]) xs
  | some x =>
      have here : key x = k := of_decide_eq_true (List.find?_some
        (p := fun x => decide (key x = k)) search)
      obtain ⟨front, back, rfl, touched⟩ := touch_of_find_some (f := f) search
      rw [upsert, touched, Option.getD_some, recordsUnder, recordsUnder, List.filter_append,
        List.filter_append]
      refine congrArg _ ?_
      have before : recordsUnder key other (x :: back) = recordsUnder key other back :=
        recordsUnder_cons_of_ne (by rwa [here]) back
      have after : recordsUnder key other (f x :: back) = recordsUnder key other back :=
        recordsUnder_cons_of_ne (by rwa [keeps, here]) back
      exact after.trans before.symm

/-- Lists with the same records under every key are permutations of each other. -/
theorem perm_of_recordsUnder [DecidableEq α] (key : α → κ) {xs ys : List α}
    (same : ∀ k, recordsUnder key k xs = recordsUnder key k ys) : xs.Perm ys := by
  rw [List.perm_iff_count]
  intro x
  have here : ∀ zs : List α, (recordsUnder key (key x) zs).count x = zs.count x :=
    fun zs => List.count_filter (decide_eq_true rfl)
  rw [← here xs, ← here ys, same]

end Records

section Order

variable {key : α → κ} {keyOf : ε → κ} {new : κ → α} {update : ε → α → α}

/-- The operations under a key. -/
theorem recordsUnder_upsertAll (keeps : ∀ e x, key (update e x) = key x)
    (fresh : ∀ k, key (new k) = k) (k : κ) (es : List ε) :
    ∀ xs : List α, recordsUnder key k (upsertAll key keyOf new update es xs) =
      es.foldl (fun records e =>
        if keyOf e = k then onFirst (new k) (update e) records else records)
          (recordsUnder key k xs) := by
  induction es with
  | nil => exact fun xs => rfl
  | cons e es ih =>
      intro xs
      rw [upsertAll, List.foldl_cons, List.foldl_cons]
      refine (ih _).trans (congrArg (es.foldl _) ?_)
      by_cases own : keyOf e = k
      · subst own
        rw [if_pos rfl]
        exact recordsUnder_upsert (keeps e) (fresh _) xs
      · rw [if_neg own]
        exact recordsUnder_upsert_of_ne (keeps e) (fresh _) own xs

/-- Updates that commute may be done in any order. -/
theorem upsertAll_perm (keeps : ∀ e x, key (update e x) = key x)
    (fresh : ∀ k, key (new k) = k) {es es' : List ε} (perm : es.Perm es')
    (commute : ∀ e ∈ es, ∀ e' ∈ es, ∀ x, update e (update e' x) = update e' (update e x))
    (xs : List α) (k : κ) :
    recordsUnder key k (upsertAll key keyOf new update es xs) =
      recordsUnder key k (upsertAll key keyOf new update es' xs) := by
  rw [recordsUnder_upsertAll keeps fresh, recordsUnder_upsertAll keeps fresh]
  refine perm.foldl_eq' ?_ _
  intro e inside e' inside' records
  by_cases own : keyOf e = k
  · by_cases own' : keyOf e' = k
    · simp only [if_pos own, if_pos own']
      cases records with
      | nil => exact congrArg (· :: []) (commute e' inside' e inside _)
      | cons x rest => exact congrArg (· :: rest) (commute e' inside' e inside x)
    · simp [own']
  · simp [own]

end Order

end Nblex
