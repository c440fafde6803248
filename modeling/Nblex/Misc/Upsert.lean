import Mathlib.Data.List.Basic

/-!
# Updating the first of a list that passes, or adding one

The list that searching for an element, updating it in place and otherwise putting a new one in
front makes.
-/

namespace Nblex

variable {α : Type}

/-- The list with the first element that passes updated, if one passes. -/
def touch (p : α → Bool) (f : α → α) : List α → Option (List α)
  | [] => none
  | x :: xs => if p x then some (f x :: xs) else (touch p f xs).map (x :: ·)

attribute [grind =] touch

/-- The list with the first element that passes updated, or with an updated new one in front. -/
def upsert (p : α → Bool) (new : α) (f : α → α) (xs : List α) : List α :=
  (touch p f xs).getD (f new :: xs)

theorem touch_of_find_none {p : α → Bool} {f : α → α} {xs : List α}
    (search : xs.find? p = none) : touch p f xs = none := by
  induction xs with
  | nil => rfl
  | cons x xs ih =>
      have here : p x = false := by
        have fails := List.find?_eq_none.mp search x List.mem_cons_self
        rwa [Bool.not_eq_true] at fails
      rw [List.find?_cons_of_neg (by rw [here]; exact Bool.false_ne_true)] at search
      rw [touch, here, if_neg Bool.false_ne_true, ih search]
      rfl

/-- The element a search finds stands behind elements that fail, and is the one that is
    updated. -/
theorem touch_of_find_some {p : α → Bool} {f : α → α} {xs : List α} {x : α}
    (search : xs.find? p = some x) :
    ∃ front back, xs = front ++ x :: back ∧ touch p f xs = some (front ++ f x :: back) := by
  induction xs with
  | nil => cases search
  | cons y xs ih =>
      cases here : p y with
      | true =>
          rw [List.find?_cons_of_pos here] at search
          obtain rfl := Option.some.inj search
          exact ⟨[], xs, rfl, by rw [touch, here, if_pos rfl]; rfl⟩
      | false =>
          rw [List.find?_cons_of_neg (by rw [here]; exact Bool.false_ne_true)] at search
          obtain ⟨front, back, split, touched⟩ := ih search
          refine ⟨y :: front, back, by rw [split]; rfl, ?_⟩
          rw [touch, here, if_neg Bool.false_ne_true, touched]
          rfl

/-- The new element matters only where none passes. -/
theorem upsert_congr_new {p : α → Bool} {f : α → α} {new new' : α} {xs : List α}
    (same : xs.find? p = none → new = new') : upsert p new f xs = upsert p new' f xs := by
  cases search : xs.find? p with
  | none => rw [same search]
  | some x =>
      obtain ⟨front, back, -, touched⟩ := touch_of_find_some (f := f) search
      rw [upsert, upsert, touched, Option.getD_some, Option.getD_some]

theorem find?_touch {p : α → Bool} {f : α → α} (keeps : ∀ x, p (f x) = p x) {xs : List α} :
    ∀ {ys : List α}, touch p f xs = some ys → ys.find? p = (xs.find? p).map f := by
  induction xs with
  | nil =>
      intro ys touched
      cases touched
  | cons x xs ih =>
      intro ys touched
      rw [touch] at touched
      cases here : p x with
      | true =>
          rw [here, if_pos rfl] at touched
          obtain rfl := Option.some.inj touched
          rw [List.find?_cons_of_pos ((keeps x).trans here), List.find?_cons_of_pos here]
          rfl
      | false =>
          have fails : ¬p x = true := by simp [here]
          rw [if_neg fails] at touched
          obtain ⟨zs, later, rfl⟩ := Option.map_eq_some_iff.mp touched
          rw [List.find?_cons_of_neg fails, List.find?_cons_of_neg fails]
          exact ih later

/-- What the search finds after the update. -/
theorem find?_upsert {p : α → Bool} {f : α → α} {new : α} (keeps : ∀ x, p (f x) = p x)
    (fresh : p new = true) (xs : List α) :
    (upsert p new f xs).find? p = some (f ((xs.find? p).getD new)) := by
  cases search : xs.find? p with
  | none =>
      rw [upsert, touch_of_find_none search]
      exact List.find?_cons_of_pos ((keeps new).trans fresh)
  | some x =>
      obtain ⟨front, back, -, touched⟩ := touch_of_find_some (f := f) search
      rw [upsert, touched]
      exact (find?_touch keeps touched).trans (congrArg (Option.map f) search)

/-- A map that the test and the update do not notice. -/
theorem touch_map {β : Type} {p : α → Bool} {q : β → Bool} {f : α → α} {g : β → β} {c : α → β}
    (test : ∀ x, q (c x) = p x) (update : ∀ x, c (f x) = g (c x)) (xs : List α) :
    touch q g (xs.map c) = (touch p f xs).map (List.map c) := by
  induction xs with
  | nil => rfl
  | cons x xs ih =>
      rw [List.map_cons, touch, touch, test x, ih]
      cases p x with
      | true => simp [update x]
      | false => simp [Option.map_map, Function.comp_def]

theorem upsert_map {β : Type} {p : α → Bool} {q : β → Bool} {f : α → α} {g : β → β} {c : α → β}
    (test : ∀ x, q (c x) = p x) (update : ∀ x, c (f x) = g (c x)) (new : α) (xs : List α) :
    (upsert p new f xs).map c = upsert q (c new) g (xs.map c) := by
  rw [upsert, upsert, touch_map test update]
  cases touch p f xs with
  | none => simp [update new]
  | some ys => rfl

end Nblex
