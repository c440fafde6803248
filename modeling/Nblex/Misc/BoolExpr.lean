import Mathlib.Data.List.Nodup

/-!
# Expressions and their left-to-right reading

Boolean expressions over arbitrary leaves, and the chain of leaves that a reader keeps who
ignores grouping and stops where the first group with a connective is closed. The chain has the
value of the expression, whatever the leaves mean, exactly when the expression leans to the right,
has a single connective and negates no group.
-/

namespace Nblex

/-- The two connectives. -/
inductive Connective where
  | and | or
  deriving DecidableEq

/-- What a connective means. -/
def Connective.apply : Connective → Bool → Bool → Bool
  | .and, l, r => l && r
  | .or, l, r => l || r

/-- The left operand that leaves the right one as it is. -/
def Connective.neutral : Connective → Bool
  | .and => true
  | .or => false

theorem Connective.apply_neutral (c : Connective) (r : Bool) : c.apply c.neutral r = r := by
  cases c with
  | and => rfl
  | or => rfl

theorem Connective.apply_absorbing (c : Connective) (r : Bool) :
    c.apply (!c.neutral) r = !c.neutral := by
  cases c with
  | and => rfl
  | or => rfl

theorem Connective.apply_self (c : Connective) (b : Bool) : c.apply b b = b := by
  cases c with
  | and => exact Bool.and_self b
  | or => exact Bool.or_self b

theorem Connective.apply_assoc (c : Connective) (x y z : Bool) :
    c.apply (c.apply x y) z = c.apply x (c.apply y z) := by
  cases c with
  | and => exact Bool.and_assoc x y z
  | or => exact Bool.or_assoc x y z

theorem Connective.neutral_of_ne {c c' : Connective} (different : c' ≠ c) :
    c'.neutral = !c.neutral := by
  cases c with
  | and =>
      cases c' with
      | and => exact absurd rfl different
      | or => rfl
  | or =>
      cases c' with
      | and => rfl
      | or => exact absurd rfl different

/-- Boolean expressions over leaves of a type. -/
inductive BoolExpr (α : Type*) where
  | atom (a : α)
  | not (e : BoolExpr α)
  | bin (c : Connective) (l r : BoolExpr α)

namespace BoolExpr

variable {α β : Type*}

/-- The value of an expression. -/
def value (v : α → Bool) : BoolExpr α → Bool
  | atom a => v a
  | not e => !e.value v
  | bin c l r => c.apply (l.value v) (r.value v)

/-- The leaves of an expression. -/
def leaves : BoolExpr α → List α
  | atom a => [a]
  | not e => e.leaves
  | bin _ l r => l.leaves ++ r.leaves

/-- The same expression over other leaves. -/
def map (f : α → β) : BoolExpr α → BoolExpr β
  | atom a => atom (f a)
  | not e => not (e.map f)
  | bin c l r => bin c (l.map f) (r.map f)

/-- A leaf, with any number of negations. -/
def isUnit : BoolExpr α → Bool
  | atom _ => true
  | not e => e.isUnit
  | bin _ _ _ => false

/-! ## The left-to-right reading -/

/-- A chain of leaves joined from left to right, each with the number of its negations. -/
structure Chain (α : Type*) where
  first : Nat × α
  rest : List (Connective × (Nat × α))

/-- The value of a leaf under its negations. -/
def unitValue (v : α → Bool) (u : Nat × α) : Bool := Nat.rec (v u.2) (fun _ b => !b) u.1

/-- The value of the rest of a chain. -/
def foldValue (v : α → Bool) (acc : Bool) (rest : List (Connective × (Nat × α))) : Bool :=
  rest.foldl (fun acc entry => entry.1.apply acc (unitValue v entry.2)) acc

/-- The value of a chain. -/
def Chain.value (v : α → Bool) (chain : Chain α) : Bool :=
  foldValue v (unitValue v chain.first) chain.rest

/-- One more negation in front of a chain. -/
def Chain.negate (chain : Chain α) : Chain α :=
  ⟨(chain.first.1 + 1, chain.first.2), chain.rest⟩

/-- The chain a reader keeps who takes the leaves in the order of the text and stops where a group
    with a connective is closed. -/
def kept : BoolExpr α → Chain α
  | atom a => ⟨(0, a), []⟩
  | not e => e.kept.negate
  | bin c l r => if l.isUnit then ⟨l.kept.first, (c, r.kept.first) :: r.kept.rest⟩ else l.kept

/-- The expression leans to the right, has no other connective than `c`, and every group is under
    an even number of negations; `even` is the parity so far. -/
def LeansBy (c : Connective) : Bool → BoolExpr α → Prop
  | _, atom _ => True
  | even, not e => LeansBy c (!even) e
  | even, bin c' l r => even = true ∧ c' = c ∧ l.isUnit = true ∧ LeansBy c true r

/-- The shape of expressions that survive the left-to-right reading. -/
def Leans (e : BoolExpr α) : Prop := ∃ c, LeansBy c true e

/-! ## Values -/

theorem value_congr {e : BoolExpr α} {v w : α → Bool} (same : ∀ a ∈ e.leaves, v a = w a) :
    e.value v = e.value w := by
  induction e with
  | atom a => exact same a List.mem_cons_self
  | not e ih => exact congrArg (!·) (ih same)
  | bin c l r ihl ihr =>
      rw [value, value, ihl (fun a member => same a (List.mem_append_left _ member)),
        ihr (fun a member => same a (List.mem_append_right _ member))]

theorem value_map (f : α → β) (v : β → Bool) (e : BoolExpr α) :
    (e.map f).value v = e.value (v ∘ f) := by
  induction e with
  | atom a => rfl
  | not e ih => exact congrArg (!·) ih
  | bin c l r ihl ihr => rw [map, value, value, ihl, ihr]

theorem map_map {γ : Type*} (f : α → β) (g : β → γ) (e : BoolExpr α) :
    (e.map f).map g = e.map (g ∘ f) := by
  induction e with
  | atom a => rfl
  | not e ih => exact congrArg not ih
  | bin c l r ihl ihr => rw [map, map, map, ihl, ihr]

theorem leaves_map (f : α → β) (e : BoolExpr α) : (e.map f).leaves = e.leaves.map f := by
  induction e with
  | atom a => rfl
  | not e ih => exact ih
  | bin c l r ihl ihr => rw [map, leaves, leaves, ihl, ihr, List.map_append]

theorem isUnit_map (f : α → β) (e : BoolExpr α) : (e.map f).isUnit = e.isUnit := by
  induction e with
  | atom a => rfl
  | not e ih => exact ih
  | bin c l r ihl ihr => rfl

theorem leansBy_map (f : α → β) (c : Connective) (even : Bool) (e : BoolExpr α) :
    LeansBy c even (e.map f) ↔ LeansBy c even e := by
  induction e generalizing even with
  | atom a => exact Iff.rfl
  | not e ih => exact ih (!even)
  | bin c' l r ihl ihr => rw [map, LeansBy, LeansBy, isUnit_map, ihr]

theorem leans_map (f : α → β) (e : BoolExpr α) : (e.map f).Leans ↔ e.Leans :=
  exists_congr (fun c => leansBy_map f c true e)

/-- One valuation on the leaves of an expression and another on all others. -/
noncomputable def splice (e : BoolExpr α) (v w : α → Bool) (a : α) : Bool := by
  classical exact if a ∈ e.leaves then v a else w a

theorem splice_left {l : BoolExpr α} (v w : α → Bool) {a : α} (member : a ∈ l.leaves) :
    splice l v w a = v a := if_pos member

theorem splice_right {l r : BoolExpr α} (distinct : (l.leaves ++ r.leaves).Nodup)
    (v w : α → Bool) {a : α} (member : a ∈ r.leaves) : splice l v w a = w a := by
  apply if_neg
  intro also
  exact (List.nodup_append.mp distinct).2.2 a also a member rfl

theorem value_splice_left (l : BoolExpr α) (v w : α → Bool) :
    l.value (splice l v w) = l.value v :=
  value_congr (fun _ member => splice_left v w member)

theorem value_splice_right {l r : BoolExpr α} (distinct : (l.leaves ++ r.leaves).Nodup)
    (v w : α → Bool) : r.value (splice l v w) = r.value w :=
  value_congr (fun _ member => splice_right distinct v w member)

/-- An expression in which no leaf occurs twice takes both values. -/
theorem attains (e : BoolExpr α) (distinct : e.leaves.Nodup) (b : Bool) :
    ∃ v, e.value v = b := by
  induction e generalizing b with
  | atom a => exact ⟨fun _ => b, rfl⟩
  | not e ih =>
      obtain ⟨v, valued⟩ := ih distinct (!b)
      exact ⟨v, by rw [value, valued, Bool.not_not]⟩
  | bin c l r ihl ihr =>
      obtain ⟨left, right, -⟩ := List.nodup_append.mp distinct
      obtain ⟨v, hv⟩ := ihl left b
      obtain ⟨w, hw⟩ := ihr right b
      refine ⟨splice l v w, ?_⟩
      rw [value, value_splice_left, value_splice_right distinct, hv, hw, Connective.apply_self]

/-- A unit over other leaves. -/
def mapUnit (f : α → β) (u : Nat × α) : Nat × β := (u.1, f u.2)

/-- A chain over other leaves. -/
def Chain.map (f : α → β) (chain : Chain α) : Chain β :=
  ⟨mapUnit f chain.first, chain.rest.map (fun entry => (entry.1, mapUnit f entry.2))⟩

theorem kept_map (f : α → β) (e : BoolExpr α) : (e.map f).kept = e.kept.map f := by
  induction e with
  | atom a => rfl
  | not e ih => exact congrArg Chain.negate ih
  | bin c l r ihl ihr =>
      rw [map, kept, kept, isUnit_map, ihl, ihr]
      by_cases unit : l.isUnit = true
      · rw [if_pos unit, if_pos unit]
        rfl
      · rw [if_neg unit, if_neg unit]

theorem foldValue_map (f : α → β) (v : β → Bool) (acc : Bool)
    (rest : List (Connective × (Nat × α))) :
    foldValue v acc (rest.map (fun entry => (entry.1, mapUnit f entry.2))) =
      foldValue (v ∘ f) acc rest := by
  rw [foldValue, List.foldl_map]
  rfl

/-- The kept chain over other leaves. -/
theorem value_kept_map (f : α → β) (v : β → Bool) (e : BoolExpr α) :
    (e.map f).kept.value v = e.kept.value (v ∘ f) := by
  rw [kept_map]
  exact foldValue_map f v _ _

/-! ## The kept chain has the value of a leaning expression -/

/-- A chain under an even or odd number of negations. -/
def Chain.under (even : Bool) (chain : Chain α) : Chain α :=
  if even then chain else chain.negate

/-- A value under an even or odd number of negations. -/
def sign (even b : Bool) : Bool := if even then b else !b

@[simp] theorem sign_true (b : Bool) : sign true b = b := rfl

@[simp] theorem sign_false (b : Bool) : sign false b = !b := rfl

theorem sign_not (even b : Bool) : sign even (!b) = sign (!even) b := by
  cases even with
  | true => rfl
  | false => exact Bool.not_not b

theorem sign_sign (even b : Bool) : sign even (sign even b) = b := by
  cases even with
  | true => rfl
  | false => exact Bool.not_not b

theorem first_under (even : Bool) (v : α → Bool) (chain : Chain α) :
    unitValue v (chain.under even).first = sign even (unitValue v chain.first) := by
  cases even with
  | true => rfl
  | false => rfl

theorem first_negate (v : α → Bool) (chain : Chain α) :
    unitValue v chain.negate.first = !unitValue v chain.first := rfl

theorem rest_under (even : Bool) (chain : Chain α) : (chain.under even).rest = chain.rest := by
  cases even with
  | true => rfl
  | false => rfl

theorem value_under (even : Bool) (v : α → Bool) (chain : Chain α) :
    (chain.under even).value v = foldValue v (sign even (unitValue v chain.first)) chain.rest := by
  rw [Chain.value, first_under, rest_under]

/-- A negation in front of a chain changes the parity. -/
theorem value_negate_under (even : Bool) (v : α → Bool) (chain : Chain α) :
    (chain.negate.under even).value v = (chain.under (!even)).value v := by
  rw [value_under, value_under, first_negate, sign_not]
  rfl

theorem kept_unit {e : BoolExpr α} (unit : e.isUnit = true) :
    e.kept.rest = [] ∧ ∀ v, unitValue v e.kept.first = e.value v := by
  induction e with
  | atom a => exact ⟨rfl, fun v => rfl⟩
  | not e ih =>
      obtain ⟨rest, same⟩ := ih unit
      exact ⟨rest, fun v => congrArg (!·) (same v)⟩
  | bin c l r ihl ihr => cases unit

theorem kept_bin_unit {c : Connective} {l : BoolExpr α} (unit : l.isUnit = true)
    (r : BoolExpr α) :
    (bin c l r).kept = ⟨l.kept.first, (c, r.kept.first) :: r.kept.rest⟩ := by
  rw [kept, if_pos unit]

theorem kept_bin_group {c : Connective} {l : BoolExpr α} (group : l.isUnit ≠ true)
    (r : BoolExpr α) : (bin c l r).kept = l.kept := by
  rw [kept, if_neg group]

/-- The chain of an expression whose first operand is a unit. -/
theorem value_bin_unit {c : Connective} {l : BoolExpr α} (unit : l.isUnit = true)
    (r : BoolExpr α) (even : Bool) (v : α → Bool) :
    ((bin c l r).kept.under even).value v = foldValue v
      (c.apply (sign even (l.value v)) (unitValue v r.kept.first)) r.kept.rest := by
  rw [kept_bin_unit unit, value_under, (kept_unit unit).2 v]
  rfl

/-- A leaning expression keeps only its own connective. -/
theorem LeansBy.connectives {c : Connective} {even : Bool} {e : BoolExpr α}
    (leans : LeansBy c even e) : ∀ entry ∈ e.kept.rest, entry.1 = c := by
  induction e generalizing even with
  | atom a =>
      intro entry member
      cases member
  | not e ih => exact ih leans
  | bin c' l r ihl ihr =>
      obtain ⟨-, rfl, unit, leansR⟩ := leans
      rw [kept_bin_unit unit]
      intro entry member
      rcases List.mem_cons.mp member with rfl | later
      · rfl
      · exact ihr leansR entry later

/-- With a single connective the first operand can be taken out. -/
theorem foldValue_assoc (v : α → Bool) {c : Connective} (x y : Bool)
    {rest : List (Connective × (Nat × α))} (single : ∀ entry ∈ rest, entry.1 = c) :
    foldValue v (c.apply x y) rest = c.apply x (foldValue v y rest) := by
  induction rest generalizing y with
  | nil => rfl
  | cons entry rest ih =>
      have here : entry.1 = c := single entry List.mem_cons_self
      have step := ih (c.apply y (unitValue v entry.2))
        (fun other member => single other (List.mem_cons_of_mem _ member))
      rw [foldValue, foldValue, List.foldl_cons, List.foldl_cons, here, Connective.apply_assoc]
      exact step

theorem LeansBy.value_kept {c : Connective} {even : Bool} {e : BoolExpr α}
    (leans : LeansBy c even e) (v : α → Bool) :
    (e.kept.under even).value v = sign even (e.value v) := by
  induction e generalizing even with
  | atom a => exact value_under even v _
  | not e ih => rw [kept, value_negate_under, ih leans, value, sign_not]
  | bin c' l r ihl ihr =>
      obtain ⟨rfl, rfl, unit, leansR⟩ := leans
      have right := ihr leansR
      rw [value_under, sign_true, sign_true] at right
      rw [value_bin_unit unit, foldValue_assoc v _ _ leansR.connectives, right]
      rfl

/-! ## Other expressions are misread -/

theorem unitValue_congr {v w : α → Bool} {u : Nat × α} (same : v u.2 = w u.2) :
    unitValue v u = unitValue w u := by
  rw [unitValue, unitValue, same]

/-- The leaves of the kept chain are leaves of the expression. -/
theorem kept_leaves (e : BoolExpr α) : e.kept.first.2 ∈ e.leaves ∧
    ∀ entry ∈ e.kept.rest, entry.2.2 ∈ e.leaves := by
  induction e with
  | atom a =>
      refine ⟨List.mem_cons_self, ?_⟩
      intro entry member
      cases member
  | not e ih => exact ih
  | bin c l r ihl ihr =>
      by_cases unit : l.isUnit = true
      · rw [kept_bin_unit unit]
        refine ⟨List.mem_append_left _ ihl.1, ?_⟩
        intro entry member
        rcases List.mem_cons.mp member with rfl | later
        · exact List.mem_append_right _ ihr.1
        · exact List.mem_append_right _ (ihr.2 entry later)
      · rw [kept_bin_group unit]
        exact ⟨List.mem_append_left _ ihl.1,
          fun entry member => List.mem_append_left _ (ihl.2 entry member)⟩

theorem foldValue_congr {v w : α → Bool} (acc : Bool) {rest : List (Connective × (Nat × α))}
    (same : ∀ entry ∈ rest, v entry.2.2 = w entry.2.2) :
    foldValue v acc rest = foldValue w acc rest := by
  induction rest generalizing acc with
  | nil => rfl
  | cons entry rest ih =>
      rw [foldValue, foldValue, List.foldl_cons, List.foldl_cons,
        unitValue_congr (same entry List.mem_cons_self)]
      exact ih _ (fun other member => same other (List.mem_cons_of_mem _ member))

/-- The kept chain depends only on the leaves of the expression. -/
theorem value_kept_congr {e : BoolExpr α} {v w : α → Bool} (even : Bool)
    (same : ∀ a ∈ e.leaves, v a = w a) :
    (e.kept.under even).value v = (e.kept.under even).value w := by
  obtain ⟨first, rest⟩ := kept_leaves e
  rw [value_under, value_under, unitValue_congr (same _ first)]
  exact foldValue_congr _ (fun entry member => same _ (rest entry member))

/-- All units of a chain have the value `b`. -/
def Chain.Constant (v : α → Bool) (b : Bool) (chain : Chain α) : Prop :=
  unitValue v chain.first = b ∧ ∀ entry ∈ chain.rest, unitValue v entry.2 = b

theorem foldValue_constant {v : α → Bool} {b : Bool} {rest : List (Connective × (Nat × α))}
    (all : ∀ entry ∈ rest, unitValue v entry.2 = b) : foldValue v b rest = b := by
  induction rest with
  | nil => rfl
  | cons entry rest ih =>
      rw [foldValue, List.foldl_cons, all entry List.mem_cons_self, Connective.apply_self]
      exact ih (fun other member => all other (List.mem_cons_of_mem _ member))

/-- When no leaf occurs twice, all units of the kept chain can be given one value. -/
theorem kept_constant (e : BoolExpr α) (distinct : e.leaves.Nodup) (even b : Bool) :
    ∃ v, (e.kept.under even).Constant v b := by
  induction e generalizing even with
  | atom a =>
      refine ⟨fun _ => sign even b, ?_, ?_⟩
      · rw [first_under]
        exact sign_sign even b
      · rw [rest_under]
        intro entry member
        cases member
  | not e ih =>
      obtain ⟨v, first, rest⟩ := ih distinct (!even)
      rw [first_under] at first
      rw [rest_under] at rest
      refine ⟨v, ?_, ?_⟩
      · rw [kept, first_under, first_negate, sign_not]
        exact first
      · rw [kept, rest_under]
        exact rest
  | bin c l r ihl ihr =>
      obtain ⟨left, right, -⟩ := List.nodup_append.mp distinct
      obtain ⟨v, firstL, restL⟩ := ihl left even
      obtain ⟨w, firstR, restR⟩ := ihr right true
      rw [first_under] at firstL
      rw [rest_under] at restL
      have onLeft : ∀ a ∈ l.leaves, splice l v w a = v a :=
        fun a member => splice_left v w member
      have onRight : ∀ a ∈ r.leaves, splice l v w a = w a :=
        fun a member => splice_right distinct v w member
      refine ⟨splice l v w, ?_⟩
      by_cases unit : l.isUnit = true
      · rw [kept_bin_unit unit]
        refine ⟨?_, ?_⟩
        · rw [first_under, unitValue_congr (onLeft _ (kept_leaves l).1)]
          exact firstL
        · rw [rest_under]
          intro entry member
          rcases List.mem_cons.mp member with rfl | later
          · rw [unitValue_congr (onRight _ (kept_leaves r).1)]
            exact firstR
          · rw [unitValue_congr (onRight _ ((kept_leaves r).2 entry later))]
            exact restR entry later
      · rw [kept_bin_group unit]
        refine ⟨?_, ?_⟩
        · rw [first_under, unitValue_congr (onLeft _ (kept_leaves l).1)]
          exact firstL
        · rw [rest_under]
          intro entry member
          rw [unitValue_congr (onLeft _ ((kept_leaves l).2 entry member))]
          exact restL entry member

/-- A group as the first operand loses the second one. -/
theorem group_disagrees {c : Connective} {l r : BoolExpr α} (group : l.isUnit ≠ true)
    (distinct : (l.leaves ++ r.leaves).Nodup) (even : Bool) :
    ¬ ∀ v, ((bin c l r).kept.under even).value v = sign even ((bin c l r).value v) := by
  intro agrees
  obtain ⟨left, right, -⟩ := List.nodup_append.mp distinct
  obtain ⟨v, neutral⟩ := attains l left c.neutral
  have follows : ∀ w, (l.kept.under even).value v = sign even (r.value w) := by
    intro w
    have here := agrees (splice l v w)
    rw [kept_bin_group group, value, value_splice_left, value_splice_right distinct, neutral,
      Connective.apply_neutral] at here
    rw [← here]
    exact value_kept_congr even (fun a member => (splice_left v w member).symm)
  obtain ⟨w, isTrue⟩ := attains r right true
  obtain ⟨w', isFalse⟩ := attains r right false
  have same := (follows w).symm.trans (follows w')
  rw [isTrue, isFalse] at same
  cases even with
  | true => cases same
  | false => cases same

/-- Below an odd number of negations only the first operand is negated. -/
theorem odd_disagrees {c : Connective} {l r : BoolExpr α} (unit : l.isUnit = true)
    (distinct : (l.leaves ++ r.leaves).Nodup) :
    ¬ ∀ v, ((bin c l r).kept.under false).value v = sign false ((bin c l r).value v) := by
  intro agrees
  obtain ⟨left, right, -⟩ := List.nodup_append.mp distinct
  obtain ⟨v, absorbing⟩ := attains l left (!c.neutral)
  obtain ⟨w, first, rest⟩ := kept_constant r right true (!c.neutral)
  have here := agrees (splice l v w)
  have constant : (r.kept.under true).value (splice l v w) = !c.neutral := by
    rw [value_kept_congr true (fun a member => splice_right distinct v w member), Chain.value,
      first]
    exact foldValue_constant rest
  rw [value_bin_unit unit, value, value_splice_left, absorbing, sign_false, sign_false,
    Bool.not_not, Connective.apply_neutral, Connective.apply_absorbing, Bool.not_not] at here
  rw [value_under, sign_true, here] at constant
  cases c with
  | and => cases constant
  | or => cases constant

/-- An expression whose kept chain is a single unit has no connective to disagree about. -/
theorem LeansBy.of_rest_nil {c c' : Connective} {even : Bool} {e : BoolExpr α}
    (leans : LeansBy c' even e) (single : e.kept.rest = []) : LeansBy c even e := by
  induction e generalizing even with
  | atom a => exact trivial
  | not e ih => exact ih leans single
  | bin c'' l r ihl ihr =>
      obtain ⟨-, -, unit, -⟩ := leans
      rw [kept_bin_unit unit] at single
      cases single

/-- Both connectives of a chain are the same. -/
theorem connective_agrees {c c' : Connective} {l r : BoolExpr α} (unit : l.isUnit = true)
    (distinct : (l.leaves ++ r.leaves).Nodup) (leans : LeansBy c' true r)
    (agrees : ∀ v, ((bin c l r).kept.under true).value v = sign true ((bin c l r).value v)) :
    LeansBy c true r := by
  cases rest : r.kept.rest with
  | nil => exact leans.of_rest_nil rest
  | cons entry more =>
      by_cases same : c' = c
      · exact same ▸ leans
      exfalso
      obtain ⟨left, right, -⟩ := List.nodup_append.mp distinct
      obtain ⟨v, absorbing⟩ := attains l left (!c.neutral)
      obtain ⟨w, first, all⟩ := kept_constant r right true c.neutral
      rw [rest_under, rest] at all
      have here := agrees (splice l v w)
      have onRest : ∀ entry ∈ r.kept.rest, splice l v w entry.2.2 = w entry.2.2 :=
        fun entry member => splice_right distinct v w ((kept_leaves r).2 entry member)
      have connective : entry.1 = c' :=
        leans.connectives entry (rest ▸ List.mem_cons_self)
      have comm : c'.apply (!c.neutral) c.neutral = c.neutral := by
        rw [← Connective.neutral_of_ne same, Connective.apply_neutral]
      rw [value_bin_unit unit, value, value_splice_left, absorbing, sign_true, sign_true,
        Connective.apply_absorbing, Connective.apply_absorbing, foldValue_congr _ onRest, rest,
        foldValue, List.foldl_cons, all entry List.mem_cons_self, connective, comm] at here
      have constant := foldValue_constant
        (fun other member => all other (List.mem_cons_of_mem entry member))
      rw [foldValue, here] at constant
      cases c with
      | and => cases constant
      | or => cases constant

/-- An expression whose kept chain always has its value leans to the right. -/
theorem leansBy_of_agrees (e : BoolExpr α) (distinct : e.leaves.Nodup) (even : Bool)
    (agrees : ∀ v, (e.kept.under even).value v = sign even (e.value v)) :
    ∃ c, LeansBy c even e := by
  induction e generalizing even with
  | atom a => exact ⟨.and, trivial⟩
  | not e ih =>
      apply ih distinct (!even)
      intro v
      rw [← value_negate_under, ← sign_not]
      exact agrees v
  | bin c l r ihl ihr =>
      by_cases unit : l.isUnit = true
      · cases even with
        | false => exact absurd agrees (odd_disagrees unit distinct)
        | true =>
            obtain ⟨left, right, -⟩ := List.nodup_append.mp distinct
            obtain ⟨v, neutral⟩ := attains l left c.neutral
            have agreesR : ∀ w, (r.kept.under true).value w = sign true (r.value w) := by
              intro w
              have here := agrees (splice l v w)
              rw [value_bin_unit unit, value, value_splice_left, value_splice_right distinct,
                neutral, sign_true, Connective.apply_neutral, Connective.apply_neutral] at here
              rw [← here, ← value_kept_congr true
                (fun a member => splice_right distinct v w member), value_under, sign_true]
            obtain ⟨c', leans⟩ := ihr right true agreesR
            exact ⟨c, rfl, rfl, unit, connective_agrees unit distinct leans agrees⟩
      · exact absurd agrees (group_disagrees unit distinct even)

/-- The left-to-right reading keeps the value of an expression without repeated leaves exactly
    when the expression leans to the right. -/
theorem leans_iff (e : BoolExpr α) (distinct : e.leaves.Nodup) :
    e.Leans ↔ ∀ v, e.kept.value v = e.value v := by
  constructor
  · rintro ⟨c, leans⟩ v
    exact leans.value_kept v
  · intro agrees
    exact leansBy_of_agrees e distinct true agrees

/-! ## Numbered leaves -/

/-- The expression with its leaves numbered from `n` on. -/
def label (n : Nat) : BoolExpr α → BoolExpr Nat
  | atom _ => atom n
  | not e => not (e.label n)
  | bin c l r => bin c (l.label n) (r.label (n + l.leaves.length))

theorem leaves_label (e : BoolExpr α) (n : Nat) :
    (e.label n).leaves = List.range' n e.leaves.length := by
  induction e generalizing n with
  | atom a => rfl
  | not e ih => exact ih n
  | bin c l r ihl ihr =>
      rw [label, leaves, leaves, ihl, ihr, List.length_append, List.range'_append_1]

theorem label_distinct (e : BoolExpr α) (n : Nat) : (e.label n).leaves.Nodup := by
  rw [leaves_label]
  exact List.nodup_range'

/-- Numbering keeps the shape. -/
theorem map_label (s : BoolExpr Unit) (n : Nat) : (s.label n).map (fun _ => ()) = s := by
  induction s generalizing n with
  | atom a => rfl
  | not e ih => exact congrArg not (ih n)
  | bin c l r ihl ihr => rw [label, map, ihl, ihr]

end BoolExpr

end Nblex
