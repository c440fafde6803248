import Mathlib.Data.List.Perm.Basic
import Mathlib.Data.List.ProdSigma
import Mathlib.Data.List.Induction

/-!
# Streaming window joins

Elements arrive one by one. Each belongs to the left side, the right side, both or neither, is
kept in the buffers of its sides, and is matched with the elements of the other side that are
near it. Over a run every near pair is found once, whichever side comes first; and dropping
elements from the buffers changes nothing as long as they are near no element still to come.
-/

namespace Nblex.WindowJoin

variable {α : Type*}

/-- The buffers of the two sides, newest element first. -/
structure Buffers (α : Type*) where
  left : List α
  right : List α

/-- The empty buffers. -/
def Buffers.empty : Buffers α := ⟨[], []⟩

section Arrive

variable (isLeft isRight : α → Bool) (near : α → α → Bool)

/-- The buffers after an arrival. -/
def Buffers.add (b : Buffers α) (x : α) : Buffers α where
  left := if isLeft x then x :: b.left else b.left
  right := if isRight x then x :: b.right else b.right

/-- The pairs an arrival completes: as a left element with the right buffer as it was, then as
    a right element with the left buffer as it is now. -/
def Buffers.found (b : Buffers α) (x : α) : List (α × α) :=
  (if isLeft x then (b.right.filter (fun r => near x r)).map (fun r => (x, r)) else []) ++
    (if isRight x then
      ((b.add isLeft isRight x).left.filter (fun l => near l x)).map (fun l => (l, x))
    else [])

/-- A run of arrivals with the pairs it finds. -/
def joinRun : Buffers α → List α → Buffers α × List (α × α)
  | b, [] => (b, [])
  | b, x :: xs =>
      ((joinRun (b.add isLeft isRight x) xs).1,
        b.found isLeft isRight near x ++ (joinRun (b.add isLeft isRight x) xs).2)

attribute [grind =] joinRun

/-- The near pairs of two lists. -/
def pairs (lefts rights : List α) : List (α × α) :=
  lefts.flatMap (fun l => (rights.filter (fun r => near l r)).map (fun r => (l, r)))

end Arrive

variable {isLeft isRight : α → Bool} {near : α → α → Bool}

/-! ## Near pairs -/

/-- The near pairs of two sides, as a part of the product. -/
theorem pairs_filter (xs ys : List α) :
    pairs near (xs.filter isLeft) (ys.filter isRight) =
      (xs ×ˢ ys).filter (fun p => isLeft p.1 && isRight p.2 && near p.1 p.2) := by
  induction xs with
  | nil => rfl
  | cons x xs ih =>
      rw [List.product_cons, List.filter_append, ← ih, List.filter_map]
      cases side : isLeft x with
      | true =>
          rw [List.filter_cons_of_pos side, pairs, List.flatMap_cons, ← pairs, List.filter_filter]
          simp only [Function.comp_def, side, Bool.true_and, Bool.and_comm]
      | false =>
          rw [List.filter_cons_of_neg (by simp [side])]
          simp [side, Function.comp_def]

theorem pairs_append_left (lefts lefts' rights : List α) :
    pairs near (lefts ++ lefts') rights = pairs near lefts rights ++ pairs near lefts' rights :=
  List.flatMap_append

theorem pairs_append_right (lefts rights rights' : List α) :
    (pairs near lefts (rights ++ rights')).Perm
      (pairs near lefts rights ++ pairs near lefts rights') := by
  unfold pairs
  refine List.Perm.trans ?_ (List.flatMap_append_perm lefts _ _).symm
  apply List.Perm.of_eq
  refine congrArg (fun f => lefts.flatMap f) (funext ?_)
  intro l
  rw [List.filter_append, List.map_append]

theorem pairs_singleton_left (l : α) (rights : List α) :
    pairs near [l] rights = (rights.filter (fun r => near l r)).map (fun r => (l, r)) := by
  rw [pairs, List.flatMap_singleton]

theorem pairs_singleton_right (lefts : List α) (r : α) :
    pairs near lefts [r] = (lefts.filter (fun l => near l r)).map (fun l => (l, r)) := by
  induction lefts with
  | nil => rfl
  | cons l lefts ih =>
      have split : pairs near (l :: lefts) [r] = pairs near [l] [r] ++ pairs near lefts [r] :=
        pairs_append_left [l] lefts [r]
      rw [split, ih, pairs_singleton_left]
      by_cases close : near l r = true
      · simp [close]
      · simp [close]

/-- The near pairs depend on the elements of both sides, not on their order. -/
theorem pairs_perm {lefts lefts' rights rights' : List α} (left : lefts.Perm lefts')
    (right : rights.Perm rights') :
    (pairs near lefts rights).Perm (pairs near lefts' rights') :=
  List.Perm.flatMap left (fun _ _ => (right.filter _).map _)

/-! ## Runs -/

theorem joinRun_append (b : Buffers α) (xs ys : List α) :
    joinRun isLeft isRight near b (xs ++ ys) =
      ((joinRun isLeft isRight near (joinRun isLeft isRight near b xs).1 ys).1,
        (joinRun isLeft isRight near b xs).2 ++
          (joinRun isLeft isRight near (joinRun isLeft isRight near b xs).1 ys).2) := by
  induction xs generalizing b with
  | nil => rfl
  | cons x xs ih => simp only [List.cons_append, joinRun, ih, List.append_assoc]

/-- The buffers hold everything of their side that has arrived. -/
theorem joinRun_buffers (near : α → α → Bool) (b : Buffers α) (xs : List α) :
    (joinRun isLeft isRight near b xs).1.left = (xs.filter isLeft).reverse ++ b.left ∧
      (joinRun isLeft isRight near b xs).1.right = (xs.filter isRight).reverse ++ b.right := by
  induction xs generalizing b with
  | nil => exact ⟨rfl, rfl⟩
  | cons x xs ih =>
      obtain ⟨left, right⟩ := ih (b.add isLeft isRight x)
      constructor
      · rw [joinRun, left]
        cases side : isLeft x with
        | true => simp [Buffers.add, side]
        | false => simp [Buffers.add, side]
      · rw [joinRun, right]
        cases side : isRight x with
        | true => simp [Buffers.add, side]
        | false => simp [Buffers.add, side]

/-- What an arrival finds in buffers that hold `lefts` and `rights`. -/
theorem found_perm {b : Buffers α} {lefts rights : List α} (left : b.left.Perm lefts)
    (right : b.right.Perm rights) (x : α) :
    (b.found isLeft isRight near x).Perm
      (pairs near ([x].filter isLeft) rights ++
        pairs near (lefts ++ [x].filter isLeft) ([x].filter isRight)) := by
  unfold Buffers.found
  apply List.Perm.append
  · cases side : isLeft x with
    | true =>
        rw [if_pos rfl, ← pairs_singleton_left, List.filter_cons_of_pos side, List.filter_nil]
        exact pairs_perm (List.Perm.refl _) right
    | false => simp [side, pairs]
  · cases side : isRight x with
    | true =>
        rw [if_pos rfl, ← pairs_singleton_right, List.filter_cons_of_pos side, List.filter_nil]
        refine pairs_perm ?_ (List.Perm.refl _)
        cases other : isLeft x with
        | true =>
            simp only [Buffers.add, other, if_true, List.filter_cons_of_pos, List.filter_nil]
            exact (left.cons x).trans (List.perm_append_singleton x lefts).symm
        | false => simpa [Buffers.add, other] using left
    | false => simp [side, pairs]

/-- A run finds every near pair of what arrived exactly once. -/
theorem joinRun_pairs (xs : List α) :
    (joinRun isLeft isRight near Buffers.empty xs).2.Perm
      (pairs near (xs.filter isLeft) (xs.filter isRight)) := by
  induction xs using List.reverseRecOn with
  | nil => exact List.Perm.refl _
  | append_singleton xs x ih =>
      obtain ⟨leftEq, rightEq⟩ := joinRun_buffers near Buffers.empty xs
      have left : (joinRun isLeft isRight near Buffers.empty xs).1.left.Perm
          (xs.filter isLeft) := by
        rw [leftEq]
        simp [Buffers.empty]
      have right : (joinRun isLeft isRight near Buffers.empty xs).1.right.Perm
          (xs.filter isRight) := by
        rw [rightEq]
        simp [Buffers.empty]
      rw [joinRun_append, List.filter_append, List.filter_append, pairs_append_left]
      simp only [joinRun, List.append_nil]
      refine (ih.append (found_perm left right x)).trans ?_
      rw [pairs_append_left]
      refine List.Perm.trans ?_ ((pairs_append_right _ _ _).append (pairs_append_right _ _ _)).symm
      rw [List.append_assoc]
      exact (List.perm_append_comm_assoc _ _ _).append_left _

/-- What a run finds does not depend on the order of arrival. -/
theorem joinRun_perm {xs ys : List α} (perm : xs.Perm ys) :
    (joinRun isLeft isRight near Buffers.empty xs).2.Perm
      (joinRun isLeft isRight near Buffers.empty ys).2 :=
  (joinRun_pairs xs).trans
    ((pairs_perm (perm.filter _) (perm.filter _)).trans (joinRun_pairs ys).symm)

/-! ## Pruning -/

/-- One step of a pruned run: an arrival, or dropping the elements that fail a test. -/
inductive JoinOp (α : Type*) where
  | arrive (x : α)
  | prune (keep : α → Bool)

/-- The elements that arrive in a run. -/
def arrivals (ops : List (JoinOp α)) : List α :=
  ops.filterMap (fun op => match op with | .arrive x => some x | .prune _ => none)

/-- Drop the elements that fail a test from both buffers. -/
def Buffers.prune (b : Buffers α) (keep : α → Bool) : Buffers α :=
  ⟨b.left.filter keep, b.right.filter keep⟩

/-- A run of arrivals and prunes with the pairs it finds. -/
def prunedRun (isLeft isRight : α → Bool) (near : α → α → Bool) :
    Buffers α → List (JoinOp α) → Buffers α × List (α × α)
  | b, [] => (b, [])
  | b, .arrive x :: ops =>
      ((prunedRun isLeft isRight near (b.add isLeft isRight x) ops).1,
        b.found isLeft isRight near x ++
          (prunedRun isLeft isRight near (b.add isLeft isRight x) ops).2)
  | b, .prune keep :: ops => prunedRun isLeft isRight near (b.prune keep) ops

/-- No prune of the run drops an element that is near an element still to come. -/
def PruneSafe (isLeft isRight : α → Bool) (near : α → α → Bool) :
    Buffers α → List (JoinOp α) → Prop
  | _, [] => True
  | b, .arrive x :: ops => PruneSafe isLeft isRight near (b.add isLeft isRight x) ops
  | b, .prune keep :: ops =>
      (∀ x ∈ arrivals ops, (∀ l ∈ b.left, near l x = true → keep l = true) ∧
        ∀ r ∈ b.right, near x r = true → keep r = true) ∧
      PruneSafe isLeft isRight near (b.prune keep) ops

/-- On a clock that never goes back, prunes are safe when they drop only what is far from
    everything that is stamped at the prune or later. `ok` is what is known of all elements. -/
theorem pruneSafe_of_clock {β : Type*} (time : β → Nat) (stamp : α → Nat) (ok : α → Prop)
    {toJoin : β → JoinOp α} :
    ∀ {ops : List β} {b : Buffers α}, ops.Pairwise (fun op later => time op ≤ time later) →
      (∀ op ∈ ops, ∀ x, toJoin op = .arrive x → stamp x = time op ∧ ok x) →
      (∀ op ∈ ops, ∀ keep, toJoin op = .prune keep → ∀ e x, ok e → ok x →
        time op ≤ stamp x → keep e = false → near e x = false ∧ near x e = false) →
      (∀ e ∈ b.left, ok e) → (∀ e ∈ b.right, ok e) →
      PruneSafe isLeft isRight near b (ops.map toJoin) := by
  intro ops
  induction ops with
  | nil =>
      intro b ordered arrive prune left right
      trivial
  | cons op ops ih =>
      intro b ordered arrive prune left right
      obtain ⟨first, ordered'⟩ := List.pairwise_cons.mp ordered
      have arrive' : ∀ later ∈ ops, ∀ x, toJoin later = .arrive x → stamp x = time later ∧ ok x :=
        fun later member => arrive later (List.mem_cons_of_mem op member)
      have rest := fun {c : Buffers α} => ih (b := c) ordered' arrive'
        (fun later member => prune later (List.mem_cons_of_mem op member))
      rw [List.map_cons]
      cases here : toJoin op with
      | arrive x =>
          have okHere := (arrive op List.mem_cons_self x here).2
          refine rest ?_ ?_
          · intro e member
            cases side : isLeft x with
            | true =>
                simp only [Buffers.add, side, if_true] at member
                rcases List.mem_cons.mp member with rfl | member
                · exact okHere
                · exact left e member
            | false =>
                simp only [Buffers.add, side, Bool.false_eq_true, if_false] at member
                exact left e member
          · intro e member
            cases side : isRight x with
            | true =>
                simp only [Buffers.add, side, if_true] at member
                rcases List.mem_cons.mp member with rfl | member
                · exact okHere
                · exact right e member
            | false =>
                simp only [Buffers.add, side, Bool.false_eq_true, if_false] at member
                exact right e member
      | prune keep =>
          refine ⟨?_, rest ?_ ?_⟩
          · intro x member
            obtain ⟨joinOp, inside, arrives⟩ := List.mem_filterMap.mp member
            obtain ⟨later, laterMember, rfl⟩ := List.mem_map.mp inside
            have isArrival : toJoin later = .arrive x := by
              cases shape : toJoin later with
              | arrive y =>
                  rw [shape] at arrives
                  rw [Option.some.inj arrives]
              | prune test =>
                  rw [shape] at arrives
                  cases arrives
            obtain ⟨stamped, okX⟩ := arrive' later laterMember x isArrival
            have after : time op ≤ stamp x := stamped ▸ first later laterMember
            constructor
            · intro l inLeft close
              by_contra dropped
              have far := prune op List.mem_cons_self keep here l x (left l inLeft) okX after
                (by simpa using dropped)
              rw [far.1] at close
              cases close
            · intro r inRight close
              by_contra dropped
              have far := prune op List.mem_cons_self keep here r x (right r inRight) okX after
                (by simpa using dropped)
              rw [far.2] at close
              cases close
          · intro e member
            exact left e (List.mem_filter.mp member).1
          · intro e member
            exact right e (List.mem_filter.mp member).1

/-- Two buffers look the same to the elements still to come. -/
def SameFor (near : α → α → Bool) (future : List α) (b b' : Buffers α) : Prop :=
  ∀ x ∈ future, b.left.filter (fun l => near l x) = b'.left.filter (fun l => near l x) ∧
    b.right.filter (fun r => near x r) = b'.right.filter (fun r => near x r)

theorem SameFor.found (isLeft isRight : α → Bool) {x : α} {future : List α} {b b' : Buffers α}
    (same : SameFor near (x :: future) b b') :
    b.found isLeft isRight near x = b'.found isLeft isRight near x := by
  obtain ⟨left, right⟩ := same x List.mem_cons_self
  unfold Buffers.found Buffers.add
  rw [right]
  cases side : isLeft x with
  | true => simp only [if_true, List.filter_cons, left]
  | false => simp only [Bool.false_eq_true, if_false, left]

theorem SameFor.add {x : α} {future : List α} {b b' : Buffers α}
    (same : SameFor near (x :: future) b b') :
    SameFor near future (b.add isLeft isRight x) (b'.add isLeft isRight x) := by
  intro y member
  obtain ⟨left, right⟩ := same y (List.mem_cons_of_mem x member)
  constructor
  · cases side : isLeft x with
    | true => simp only [Buffers.add, side, if_true, List.filter_cons, left]
    | false => simp only [Buffers.add, side, Bool.false_eq_true, if_false, left]
  · cases side : isRight x with
    | true => simp only [Buffers.add, side, if_true, List.filter_cons, right]
    | false => simp only [Buffers.add, side, Bool.false_eq_true, if_false, right]

theorem SameFor.prune {future : List α} {b b' : Buffers α} {keep : α → Bool}
    (same : SameFor near future b b')
    (safe : ∀ x ∈ future, (∀ l ∈ b.left, near l x = true → keep l = true) ∧
      ∀ r ∈ b.right, near x r = true → keep r = true) :
    SameFor near future (b.prune keep) b' := by
  intro x member
  obtain ⟨left, right⟩ := same x member
  obtain ⟨safeLeft, safeRight⟩ := safe x member
  constructor
  · rw [← left, Buffers.prune, List.filter_filter]
    refine List.filter_congr ?_
    intro l inside
    cases close : near l x with
    | true => simp [safeLeft l inside close]
    | false => rfl
  · rw [← right, Buffers.prune, List.filter_filter]
    refine List.filter_congr ?_
    intro r inside
    cases close : near x r with
    | true => simp [safeRight r inside close]
    | false => rfl

/-- A safely pruned run finds the same pairs, in the same order, as the run without prunes. -/
theorem prunedRun_eq_joinRun :
    ∀ {ops : List (JoinOp α)} {b b' : Buffers α}, SameFor near (arrivals ops) b b' →
      PruneSafe isLeft isRight near b ops →
      (prunedRun isLeft isRight near b ops).2 =
        (joinRun isLeft isRight near b' (arrivals ops)).2 := by
  intro ops
  induction ops with
  | nil =>
      intro b b' same safe
      rfl
  | cons op ops ih =>
      intro b b' same safe
      cases op with
      | arrive x =>
          have rest := ih same.add safe
          have here := SameFor.found isLeft isRight same
          simp only [prunedRun, rest, here]
          rfl
      | prune keep => exact ih (same.prune safe.1) safe.2

/-! ## Buffers that hold less -/

/-- The elements of one pair of buffers are among those of another, in their order. -/
structure Buffers.Within (b b' : Buffers α) : Prop where
  left : b.left.Sublist b'.left
  right : b.right.Sublist b'.right

theorem Buffers.Within.refl (b : Buffers α) : b.Within b :=
  ⟨List.Sublist.refl b.left, List.Sublist.refl b.right⟩

theorem Buffers.Within.prune {b b' : Buffers α} (within : b.Within b') (keep : α → Bool) :
    (b.prune keep).Within b' :=
  ⟨List.filter_sublist.trans within.left, List.filter_sublist.trans within.right⟩

theorem Buffers.Within.add {b b' : Buffers α} (within : b.Within b') (x : α) :
    (b.add isLeft isRight x).Within (b'.add isLeft isRight x) := by
  constructor
  · cases side : isLeft x with
    | true => simpa only [Buffers.add, side, if_true] using within.left.cons_cons x
    | false => simpa only [Buffers.add, side, Bool.false_eq_true, if_false] using within.left
  · cases side : isRight x with
    | true => simpa only [Buffers.add, side, if_true] using within.right.cons_cons x
    | false => simpa only [Buffers.add, side, Bool.false_eq_true, if_false] using within.right

/-- What an arrival finds in the lesser buffers it finds in the greater. -/
theorem Buffers.Within.found {b b' : Buffers α} (within : b.Within b') (x : α) :
    (b.found isLeft isRight near x).Sublist (b'.found isLeft isRight near x) := by
  have added : (b.add isLeft isRight x).Within (b'.add isLeft isRight x) := within.add x
  unfold Buffers.found
  refine List.Sublist.append ?_ ?_
  · cases isLeft x with
    | true => exact (within.right.filter _).map _
    | false => exact List.Sublist.refl []
  · cases isRight x with
    | true => exact (added.left.filter _).map _
    | false => exact List.Sublist.refl []

/-- However it is pruned, a run finds no pair that the run without prunes does not find, and none
    more often. -/
theorem prunedRun_sublist (ops : List (JoinOp α)) :
    ∀ {b b' : Buffers α}, b.Within b' →
      (prunedRun isLeft isRight near b ops).2.Sublist
        (joinRun isLeft isRight near b' (arrivals ops)).2 := by
  induction ops with
  | nil => exact fun _ => List.Sublist.refl []
  | cons op ops ih =>
      intro b b' within
      cases op with
      | arrive x => exact (within.found x).append (ih (within.add x))
      | prune keep => exact ih (within.prune keep)

/-! ## Pairs of an element with itself -/

section Keys

variable {κ : Type*} {key : α → κ}

/-- An arrival with a new key finds a pair of one key only if it is near itself and belongs to both
    sides: it is in the left buffer by the time that is searched. -/
theorem found_keys_ne_iff {b : Buffers α} {x : α} (left : ∀ l ∈ b.left, key l ≠ key x)
    (right : ∀ r ∈ b.right, key r ≠ key x) :
    (∀ p ∈ b.found isLeft isRight near x, key p.1 ≠ key p.2) ↔
      ¬(isLeft x = true ∧ isRight x = true ∧ near x x = true) := by
  constructor
  · rintro apart ⟨onLeft, onRight, close⟩
    have self : (x, x) ∈ b.found isLeft isRight near x := by
      rw [Buffers.found]
      refine List.mem_append_right _ ?_
      rw [if_pos onRight]
      refine List.mem_map_of_mem (List.mem_filter.mpr ⟨?_, close⟩)
      rw [Buffers.add, if_pos onLeft]
      exact List.mem_cons_self
    exact apart (x, x) self rfl
  · intro notSelf p member
    rw [Buffers.found] at member
    rcases List.mem_append.mp member with inRight | inLeft
    · cases onLeft : isLeft x with
      | false => simp [onLeft] at inRight
      | true =>
          rw [onLeft, if_pos rfl] at inRight
          obtain ⟨r, kept, rfl⟩ := List.mem_map.mp inRight
          exact (right r (List.mem_filter.mp kept).1).symm
    · cases onRight : isRight x with
      | false => simp [onRight] at inLeft
      | true =>
          rw [onRight, if_pos rfl] at inLeft
          obtain ⟨l, kept, rfl⟩ := List.mem_map.mp inLeft
          obtain ⟨inside, close⟩ := List.mem_filter.mp kept
          cases onLeft : isLeft x with
          | false =>
              rw [Buffers.add, onLeft] at inside
              exact left l inside
          | true =>
              rw [Buffers.add, onLeft] at inside
              rcases List.mem_cons.mp inside with rfl | old
              · exact absurd ⟨onLeft, onRight, close⟩ notSelf
              · exact left l old

theorem Buffers.mem_add_left {b : Buffers α} {x l : α}
    (inside : l ∈ (b.add isLeft isRight x).left) : l = x ∨ l ∈ b.left := by
  dsimp only [Buffers.add] at inside
  split at inside
  · exact List.mem_cons.mp inside
  · exact .inr inside

theorem Buffers.mem_add_right {b : Buffers α} {x r : α}
    (inside : r ∈ (b.add isLeft isRight x).right) : r = x ∨ r ∈ b.right := by
  dsimp only [Buffers.add] at inside
  split at inside
  · exact List.mem_cons.mp inside
  · exact .inr inside

/-- In a run of arrivals with different keys no pair has one key just in case no arrival that is
    near itself belongs to both sides, however the buffers are pruned on the way. -/
theorem prunedRun_keys_ne_iff (ops : List (JoinOp α)) :
    ∀ {b : Buffers α}, ((arrivals ops).map key).Nodup →
      (∀ l ∈ b.left, ∀ y ∈ arrivals ops, key l ≠ key y) →
      (∀ r ∈ b.right, ∀ y ∈ arrivals ops, key r ≠ key y) →
      ((∀ p ∈ (prunedRun isLeft isRight near b ops).2, key p.1 ≠ key p.2) ↔
        ∀ x ∈ arrivals ops, ¬(isLeft x = true ∧ isRight x = true ∧ near x x = true)) := by
  induction ops with
  | nil =>
      intro b distinct left right
      exact ⟨fun _ => nofun, fun _ => nofun⟩
  | cons op ops ih =>
      intro b distinct left right
      cases op with
      | arrive x =>
          obtain ⟨fresh, distinct'⟩ := List.nodup_cons.mp distinct
          have later : ∀ y ∈ arrivals ops, key x ≠ key y := fun y member same =>
            fresh (same ▸ List.mem_map_of_mem member)
          have left' : ∀ l ∈ (b.add isLeft isRight x).left, ∀ y ∈ arrivals ops, key l ≠ key y := by
            intro l inside y member
            rcases Buffers.mem_add_left inside with rfl | old
            · exact later y member
            · exact left l old y (List.mem_cons_of_mem x member)
          have right' : ∀ r ∈ (b.add isLeft isRight x).right, ∀ y ∈ arrivals ops,
              key r ≠ key y := by
            intro r inside y member
            rcases Buffers.mem_add_right inside with rfl | old
            · exact later y member
            · exact right r old y (List.mem_cons_of_mem x member)
          have here : (∀ p ∈ b.found isLeft isRight near x, key p.1 ≠ key p.2) ↔
              ¬(isLeft x = true ∧ isRight x = true ∧ near x x = true) :=
            found_keys_ne_iff (fun l inside => left l inside x List.mem_cons_self)
              (fun r inside => right r inside x List.mem_cons_self)
          rw [show arrivals (.arrive x :: ops) = x :: arrivals ops from rfl, List.forall_mem_cons]
          exact List.forall_mem_append.trans (and_congr here (ih distinct' left' right'))
      | prune keep =>
          exact ih distinct (fun l inside => left l (List.mem_filter.mp inside).1)
            (fun r inside => right r (List.mem_filter.mp inside).1)

end Keys

end Nblex.WindowJoin
