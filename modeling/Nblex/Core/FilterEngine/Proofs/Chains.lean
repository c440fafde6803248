import Nblex.Misc.BoolExpr
import Nblex.Core.FilterEngine.Proofs.Atoms

/-!
# Chains of comparisons

Comparisons joined by `AND` and `OR` without parentheses. The parser builds the left-to-right
tree over the comparisons as it reads them in front of the text that follows, and a comparison
means there what it means alone unless a dot follows that its literal is sensitive to.
-/

namespace Nblex

/-! ## Texts -/

/-- The text of a connective. -/
def Connective.text : Connective → List Char
  | .and => ['A', 'N', 'D']
  | .or => ['O', 'R']

/-- The node of a connective. -/
def Connective.node : Connective → FilterNode → FilterNode → FilterNode
  | .and => .and
  | .or => .or

/-- The part of a chain after its first comparison. -/
def tailText : List (Connective × FilterAtom) → List Char
  | [] => []
  | (c, a) :: rest => ' ' :: (c.text ++ ' ' :: (a.text ++ tailText rest))

/-- The text of a chain. -/
def chainText (first : FilterAtom) (rest : List (Connective × FilterAtom)) : List Char :=
  first.text ++ tailText rest

/-! ## What the text should mean -/

section Meaning

variable [Pcre2]

/-- What the filter made of a text gives on an event; `none` where there is no filter. -/
def filterResult (text : List Char) (event : Event) : Option Bool :=
  (nblexFilterNew text).map (fun filter => nblexFilterMatches filter event)

/-- The results of the comparisons alone, combined from left to right. -/
def leftToRight (event : Event) :
    Option Bool → List (Connective × FilterAtom) → Option Bool
  | acc, [] => acc
  | acc, (c, a) :: rest =>
      leftToRight event
        (acc.bind (fun l => (filterResult a.text event).map (fun r => c.apply l r))) rest

/-- What a comparison means where it is read in front of `later`. -/
def readBefore (a : FilterAtom) (later : List Char) (event : Event) : Option Bool :=
  (parseFilterExpr ((a.text ++ later).length + 1) (a.text ++ later)).map
    (fun read => nblexFilterMatches read.1 event)

/-- In front of `later` a comparison means what it means alone. -/
def MeansAlone (a : FilterAtom) (later : List Char) : Prop :=
  ∀ event, readBefore a later event = filterResult a.text event

/-- A property of each comparison of a chain and the text after it. -/
def EachAtom (P : FilterAtom → List Char → Prop) :
    FilterAtom → List (Connective × FilterAtom) → Prop
  | a, [] => P a []
  | a, (c, b) :: rest => P a (tailText ((c, b) :: rest)) ∧ EachAtom P b rest

/-- A chain means the left-to-right combination of its comparisons, each of them means what it
    means alone. -/
def ChainMeets (first : FilterAtom) (rest : List (Connective × FilterAtom)) : Prop :=
  (∀ event, filterResult (chainText first rest) event =
    leftToRight event (filterResult first.text event) rest) ∧
  EachAtom MeansAlone first rest

end Meaning

/-! ## The dots -/

/-- The number of an integer literal. -/
def integerValue (negative : Bool) (digits : List Char) : Int :=
  signed negative (decimalValue digits : Int)

/-- A dot in the text after a comparison changes what it means: its literal is an integer, it is
    compared for equality or does not fit into an `int`, and the name is not all `NOT`s. -/
def FilterAtom.DotSensitive (a : FilterAtom) : Prop :=
  ∃ negative digits, a.literal = .integer negative digits ∧ (notPrefix a.field).2 ≠ [] ∧
    (a.op = .eq ∨ a.op = .ne ∨
      ¬ (-2 ^ 31 ≤ integerValue negative digits ∧ integerValue negative digits < 2 ^ 31))

/-- No dot follows a comparison that is sensitive to it. -/
def DotFree (a : FilterAtom) (later : List Char) : Prop := a.DotSensitive → '.' ∉ later

/-! ## The parser on a chain -/

/-- The tree of a chain: each comparison is read in front of the text that follows it. -/
def chainNode (left : FilterNode) : List (Connective × FilterAtom) → Option FilterNode
  | [] => some left
  | (c, a) :: rest =>
      (a.node (tailText rest)).bind (fun right => chainNode (c.node left right) rest)

theorem tailText_stops (rest : List (Connective × FilterAtom)) : Stops (tailText rest) := by
  cases rest with
  | nil => exact Or.inl rfl
  | cons entry rest => exact Or.inr ⟨_, Or.inl rfl⟩

theorem parseConnective_text (c : Connective) (later : List Char) :
    parseConnective (skipSpace (' ' :: (c.text ++ later))) = some (c.node, later) := by
  cases c with
  | and => rfl
  | or => rfl

theorem FilterAtom.field_lt (a : FilterAtom) (later : List Char) :
    a.field.length < (a.text ++ later).length := by
  simp only [FilterAtom.text, List.length_append, List.length_cons]
  omega

section Parser

variable [Pcre2]

/-- The loop over the rest of a chain. -/
theorem parseFilterLoop_chain (rest : List (Connective × FilterAtom)) :
    ∀ (fuel : Nat) (left : FilterNode), (tailText rest).length < fuel →
      parseFilterLoop fuel left (tailText rest) =
        (chainNode left rest).map (fun node => (node, [])) := by
  induction rest with
  | nil =>
      intro fuel left enough
      obtain ⟨fuel, rfl⟩ := Nat.exists_eq_succ_of_ne_zero (Nat.ne_of_gt enough)
      rfl
  | cons entry rest ih =>
      obtain ⟨c, a⟩ := entry
      intro fuel left enough
      obtain ⟨fuel, rfl⟩ := Nat.exists_eq_succ_of_ne_zero (Nat.ne_of_gt (Nat.zero_lt_of_lt enough))
      have long : (a.text ++ tailText rest).length < fuel := by
        simp only [tailText, List.length_cons, List.length_append] at enough ⊢
        omega
      have enoughField : a.field.length < fuel := lt_trans (a.field_lt _) long
      have enoughRest : (tailText rest).length < fuel := by
        rw [List.length_append] at long
        omega
      rw [tailText, parseFilterLoop, parseConnective_text]
      simp only [parseFilterExpr_blank]
      rw [parseFilterExpr_atom a (tailText_stops rest) enoughField, chainNode]
      cases a.node (tailText rest) with
      | none => rfl
      | some right => exact ih fuel (c.node left right) enoughRest

/-- The filter of a chain. -/
theorem nblexFilterNew_chain (first : FilterAtom) (rest : List (Connective × FilterAtom)) :
    nblexFilterNew (chainText first rest) =
      (first.node (tailText rest)).bind (fun left => chainNode left rest) := by
  have enough : first.field.length < (chainText first rest).length + 1 :=
    Nat.lt_succ_of_lt (first.field_lt _)
  have enoughRest : (tailText rest).length < (chainText first rest).length + 1 := by
    simp only [chainText, List.length_append]
    omega
  have head := parseFilterExpr_atom first (tailText_stops rest) enough
  rw [nblexFilterNew, parseFilterFull]
  rw [← chainText] at head
  rw [head]
  cases first.node (tailText rest) with
  | none => rfl
  | some left =>
      simp only [Option.map_some, Option.bind_some]
      rw [parseFilterLoop_chain rest _ left enoughRest]
      cases chainNode left rest with
      | none => rfl
      | some node => rfl

/-- The filter of a comparison alone. -/
theorem nblexFilterNew_atom (a : FilterAtom) : nblexFilterNew a.text = a.node [] := by
  have alone := nblexFilterNew_chain a []
  rw [chainText, tailText, List.append_nil] at alone
  rw [alone]
  cases a.node [] with
  | none => rfl
  | some node => rfl

theorem filterResult_atom (a : FilterAtom) (event : Event) :
    filterResult a.text event =
      (a.node []).map (fun node => nblexFilterMatches node event) := by
  rw [filterResult, nblexFilterNew_atom]

theorem readBefore_eq (a : FilterAtom) {later : List Char} (stops : Stops later)
    (event : Event) :
    readBefore a later event =
      (a.node later).map (fun node => nblexFilterMatches node event) := by
  rw [readBefore, parseFilterExpr_atom a stops (Nat.lt_succ_of_lt (a.field_lt later)),
    Option.map_map]
  rfl

theorem matches_node (c : Connective) (left right : FilterNode) (event : Event) :
    nblexFilterMatches (c.node left right) event =
      c.apply (nblexFilterMatches left event) (nblexFilterMatches right event) := by
  unfold nblexFilterMatches
  cases event.data with
  | none =>
      cases c with
      | and => rfl
      | or => rfl
  | some data =>
      cases c with
      | and => rfl
      | or => rfl

end Parser

/-! ## What a dot changes -/

theorem orderHolds_cast (op : FilterOp) (n m : Int) :
    orderHolds op (n : ℚ) (m : ℚ) = orderHolds op n m := by
  cases op with
  | lt | gt => simp only [orderHolds, Rat.intCast_lt_intCast]
  | le | ge => simp only [orderHolds, Rat.intCast_le_intCast]
  | eq | ne | patMatch | patNmatch | isIn | contains => rfl

/-- An ordering does not tell a real from the integer it equals. -/
theorem fieldOrdered_cast (op : FilterOp) (fieldValue : Json) (n : Int) :
    fieldOrdered op fieldValue (.real (n : ℚ)) = fieldOrdered op fieldValue (.integer n) := by
  cases fieldValue with
  | integer m => exact orderHolds_cast op m n
  | real q => rfl
  | null | bool | string | array | object => rfl

/-- Two different bounds are told apart by a number next to the first. -/
theorem orderHolds_separates {op : FilterOp} (ordering : op = .lt ∨ op = .le ∨ op = .gt ∨ op = .ge)
    {t r : Int} (different : t ≠ r) : ∃ n : Int, orderHolds op n r ≠ orderHolds op n t := by
  rcases lt_or_gt_of_ne different with less | greater
  · have notLe : ¬ t + 1 ≤ t := by omega
    have notGe : ¬ r < t + 1 := by omega
    rcases ordering with rfl | rfl | rfl | rfl
    · exact ⟨t, by simp [orderHolds, less]⟩
    · exact ⟨t + 1, by simp [orderHolds, Int.add_one_le_of_lt less, notLe]⟩
    · exact ⟨t + 1, by simp [orderHolds, notGe]⟩
    · exact ⟨t, by simp [orderHolds, less]⟩
  · have notLt : ¬ t - 1 < r := by omega
    have le : r ≤ t - 1 := by omega
    have notGe : ¬ t ≤ t - 1 := by omega
    rcases ordering with rfl | rfl | rfl | rfl
    · exact ⟨t - 1, by simp [orderHolds, notLt]⟩
    · exact ⟨t, by simp [orderHolds, greater]⟩
    · exact ⟨t, by simp [orderHolds, greater]⟩
    · exact ⟨t - 1, by simp [orderHolds, le, notGe]⟩

theorem toInt32_clampLong {n : Int} (lower : -2 ^ 31 ≤ n) (upper : n < 2 ^ 31) :
    toInt32 (clampLong n) = n := by
  have same : clampLong n = n := by
    unfold clampLong
    omega
  rw [same, toInt32_of_mem lower upper]

/-- A number that does not fit into an `int` is cut to another one. -/
theorem toInt32_clampLong_ne {n : Int} (large : ¬ (-2 ^ 31 ≤ n ∧ n < 2 ^ 31)) :
    toInt32 (clampLong n) ≠ n := by
  unfold toInt32
  omega

theorem signed_cast (negative : Bool) (n : Nat) :
    (signed negative (n : ℚ)) = ((signed negative (n : Int) : Int) : ℚ) := by
  cases negative with
  | true => simp [signed]
  | false => simp [signed]

theorem valueBefore_noDot (literal : FilterLiteral) {later : List Char} (noDot : '.' ∉ later) :
    literal.valueBefore later = literal.valueBefore [] := by
  cases literal with
  | integer negative digits =>
      simp [FilterLiteral.valueBefore, noDot]
  | string | decimal | bool => rfl

/-- An integer literal in front of a dot. -/
theorem valueBefore_dotted (negative : Bool) (digits : List Char) {later : List Char}
    (dotted : '.' ∈ later) :
    (FilterLiteral.integer negative digits).valueBefore later =
      .real ((integerValue negative digits : Int) : ℚ) := by
  simp [FilterLiteral.valueBefore, dotted, integerValue, signed_cast]

theorem valueBefore_alone (negative : Bool) (digits : List Char) :
    (FilterLiteral.integer negative digits).valueBefore [] =
      .integer (toInt32 (clampLong (integerValue negative digits))) := rfl

theorem FilterAtom.ordering {a : FilterAtom} (noEquality : ¬ (a.op = .eq ∨ a.op = .ne)) :
    a.op = .lt ∨ a.op = .le ∨ a.op = .gt ∨ a.op = .ge := by
  have comparison := a.comparison
  cases op : a.op with
  | eq | ne => simp [op] at noEquality
  | lt | le | gt | ge => simp
  | patMatch | patNmatch | isIn | contains =>
      rw [op] at comparison
      cases comparison

section Sensitivity

variable [Pcre2]

theorem negated_eval (n : Nat) (left right : FilterNode) (data : Json) :
    evaluateFilterNode (negated n left) data = evaluateFilterNode (negated n right) data ↔
      evaluateFilterNode left data = evaluateFilterNode right data := by
  induction n with
  | zero => rfl
  | succ n ih =>
      rw [negated, negated, evaluateFilterNode, evaluateFilterNode, ← ih]
      exact Bool.not_inj_iff

/-- The comparison of a name and a literal that has the value `value`. -/
def FilterAtom.compares (a : FilterAtom) (value : FilterValue) (data : Json) : Bool :=
  evaluateFilterExpr ⟨String.ofList (notPrefix a.field).2, a.op, value, none⟩ data

/-- A comparison means what it means alone when its literal is read with a value that compares
    in the same way. -/
theorem meansAlone_iff_compares (a : FilterAtom) {later : List Char} (stops : Stops later)
    (named : (notPrefix a.field).2 ≠ []) :
    MeansAlone a later ↔ ∀ data, a.compares (a.literal.valueBefore later) data =
      a.compares (a.literal.valueBefore []) data := by
  have node : ∀ later, a.node later = some (negated (notPrefix a.field).1
      (.expr ⟨String.ofList (notPrefix a.field).2, a.op, a.literal.valueBefore later, none⟩)) :=
    fun later => if_neg named
  have results : ∀ event, readBefore a later event = filterResult a.text event ↔
      ∀ data, event.data = some data → a.compares (a.literal.valueBefore later) data =
        a.compares (a.literal.valueBefore []) data := by
    intro event
    rw [readBefore_eq a stops, filterResult_atom, node, node, Option.map_some, Option.map_some,
      Option.some_inj, nblexFilterMatches, nblexFilterMatches]
    cases event.data with
    | none =>
        constructor
        · intro same data absent
          cases absent
        · intro same
          rfl
    | some data =>
        rw [negated_eval]
        constructor
        · rintro same data' ⟨⟩
          exact same
        · intro same
          exact same data rfl
  constructor
  · intro alone data
    exact (results ⟨0, .log, 0, none, some data⟩).mp (alone _) data rfl
  · intro same event
    exact (results event).mpr (fun data _ => same data)

/-- The event with one field. -/
theorem compares_field (a : FilterAtom) (value : FilterValue) (fieldValue : Json) :
    a.compares value (.object [(String.ofList (notPrefix a.field).2, fieldValue)]) =
      match a.op with
      | .eq => fieldEquals fieldValue value
      | .ne => !fieldEquals fieldValue value
      | .lt | .le | .gt | .ge => fieldOrdered a.op fieldValue value
      | _ => false := by
  have comparison := a.comparison
  rw [FilterAtom.compares, evaluateFilterExpr]
  simp only [Json.get?, List.find?_cons, beq_self_eq_true, Option.map_some]
  cases op : a.op with
  | eq | ne | lt | le | gt | ge => rfl
  | isIn | contains => rfl
  | patMatch | patNmatch =>
      rw [op] at comparison
      cases comparison

/-- A real and an integer bound are told apart by an equality, and by an ordering when the number
    does not fit into an `int`. -/
theorem compares_separates (a : FilterAtom) {n : Int}
    (sensitive : a.op = .eq ∨ a.op = .ne ∨ ¬ (-2 ^ 31 ≤ n ∧ n < 2 ^ 31)) :
    ∃ data, a.compares (.real (n : ℚ)) data ≠
      a.compares (.integer (toInt32 (clampLong n))) data := by
  by_cases equality : a.op = .eq ∨ a.op = .ne
  · refine ⟨.object [(String.ofList (notPrefix a.field).2, .integer (toInt32 (clampLong n)))], ?_⟩
    rw [compares_field, compares_field]
    rcases equality with op | op
    · rw [op]
      simp [fieldEquals]
    · rw [op]
      simp [fieldEquals]
  · have large : ¬ (-2 ^ 31 ≤ n ∧ n < 2 ^ 31) :=
      (sensitive.resolve_left (fun op => equality (Or.inl op))).resolve_left
        (fun op => equality (Or.inr op))
    have ordering := FilterAtom.ordering equality
    obtain ⟨m, separates⟩ := orderHolds_separates ordering (toInt32_clampLong_ne large)
    refine ⟨.object [(String.ofList (notPrefix a.field).2, .integer m)], ?_⟩
    rw [compares_field, compares_field]
    rcases ordering with op | op | op | op
    all_goals
      rw [op] at separates ⊢
      simp only [fieldOrdered_cast]
      exact separates

/-- An ordering with a number that fits into an `int` does not depend on how it is read. -/
theorem compares_agrees (a : FilterAtom) {n : Int}
    (insensitive : ¬ (a.op = .eq ∨ a.op = .ne ∨ ¬ (-2 ^ 31 ≤ n ∧ n < 2 ^ 31))) (data : Json) :
    a.compares (.real (n : ℚ)) data = a.compares (.integer (toInt32 (clampLong n))) data := by
  have fits : -2 ^ 31 ≤ n ∧ n < 2 ^ 31 := by
    by_contra large
    exact insensitive (Or.inr (Or.inr large))
  rw [toInt32_clampLong fits.1 fits.2, FilterAtom.compares, FilterAtom.compares,
    evaluateFilterExpr, evaluateFilterExpr]
  cases data.get? (String.ofList (notPrefix a.field).2) with
  | none => rfl
  | some fieldValue =>
      have ordered := fieldOrdered_cast a.op fieldValue n
      cases op : a.op with
      | eq => exact absurd (Or.inl op) insensitive
      | ne => exact absurd (Or.inr (Or.inl op)) insensitive
      | lt | le | gt | ge =>
          rw [op] at ordered
          exact ordered
      | patMatch | patNmatch | isIn | contains => rfl

/-- A comparison means what it means alone exactly when no dot follows that it is sensitive
    to. -/
theorem meansAlone_iff (a : FilterAtom) {later : List Char} (stops : Stops later) :
    MeansAlone a later ↔ DotFree a later := by
  by_cases named : (notPrefix a.field).2 = []
  · have none : ∀ later, a.node later = none := fun later => if_pos named
    constructor
    · rintro - ⟨negative, digits, -, nonempty, -⟩
      exact absurd named nonempty
    · intro free event
      rw [readBefore_eq a stops, filterResult_atom, none, none]
  rw [meansAlone_iff_compares a stops named]
  by_cases dotted : '.' ∈ later
  · cases literal : a.literal with
    | string | decimal | bool =>
        constructor
        · rintro - ⟨negative, digits, isInteger, -⟩
          rw [literal] at isInteger
          cases isInteger
        · intro free data
          rfl
    | integer negative digits =>
        rw [valueBefore_dotted negative digits dotted, valueBefore_alone]
        constructor
        · rintro same ⟨negative', digits', sameLiteral, -, sensitive⟩
          rw [literal] at sameLiteral
          cases sameLiteral
          obtain ⟨data, separates⟩ := compares_separates a sensitive
          exact absurd (same data) separates
        · intro free
          apply compares_agrees a
          intro sensitive
          exact free ⟨negative, digits, literal, named, sensitive⟩ dotted
  · rw [valueBefore_noDot a.literal dotted]
    constructor
    · intro same sensitive
      exact dotted
    · intro free data
      rfl

end Sensitivity

/-! ## Chains -/

theorem EachAtom.head {P : FilterAtom → List Char → Prop} {first : FilterAtom}
    {rest : List (Connective × FilterAtom)} (each : EachAtom P first rest) :
    P first (tailText rest) := by
  cases rest with
  | nil => exact each
  | cons entry rest => exact each.1

theorem EachAtom.congr {P Q : FilterAtom → List Char → Prop}
    (same : ∀ a later, Stops later → (P a later ↔ Q a later)) (first : FilterAtom)
    (rest : List (Connective × FilterAtom)) : EachAtom P first rest ↔ EachAtom Q first rest := by
  induction rest generalizing first with
  | nil => exact same first [] (Or.inl rfl)
  | cons entry rest ih =>
      obtain ⟨c, a⟩ := entry
      exact and_congr (same first _ (tailText_stops ((c, a) :: rest))) (ih a)

section Chain

variable [Pcre2]

/-- Without a result for one comparison there is none for the chain. -/
theorem leftToRight_none (event : Event) (rest : List (Connective × FilterAtom)) :
    leftToRight event none rest = none := by
  induction rest with
  | nil => rfl
  | cons entry rest ih => exact ih

/-- The tree of a chain is evaluated from left to right. -/
theorem chainNode_leftToRight (event : Event) (rest : List (Connective × FilterAtom)) :
    ∀ (first : FilterAtom) (left : FilterNode), EachAtom MeansAlone first rest →
      (chainNode left rest).map (fun node => nblexFilterMatches node event) =
        leftToRight event (some (nblexFilterMatches left event)) rest := by
  induction rest with
  | nil =>
      intro first left means
      rfl
  | cons entry rest ih =>
      obtain ⟨c, a⟩ := entry
      rintro first left ⟨-, means⟩
      have alone := means.head event
      rw [readBefore_eq a (tailText_stops rest)] at alone
      rw [chainNode, leftToRight, ← alone]
      cases a.node (tailText rest) with
      | none => exact (leftToRight_none event rest).symm
      | some right =>
          simp only [Option.bind_some, Option.map_some]
          rw [ih a (c.node left right) means, matches_node]

theorem filterResult_chain {first : FilterAtom} {rest : List (Connective × FilterAtom)}
    (means : EachAtom MeansAlone first rest) (event : Event) :
    filterResult (chainText first rest) event =
      leftToRight event (filterResult first.text event) rest := by
  have alone := means.head event
  rw [readBefore_eq first (tailText_stops rest)] at alone
  rw [filterResult, nblexFilterNew_chain, ← alone]
  cases first.node (tailText rest) with
  | none => exact (leftToRight_none event rest).symm
  | some left => exact chainNode_leftToRight event rest first left means

/-- The first two comparisons of a chain can change places when they are joined by `AND`. -/
theorem leftToRight_exchange (a b : FilterAtom) (rest : List (Connective × FilterAtom))
    (event : Event) :
    leftToRight event (filterResult a.text event) ((.and, b) :: rest) =
      leftToRight event (filterResult b.text event) ((.and, a) :: rest) := by
  rw [leftToRight, leftToRight]
  cases filterResult a.text event with
  | none =>
      cases filterResult b.text event with
      | none => rfl
      | some r => rfl
  | some l =>
      cases filterResult b.text event with
      | none => rfl
      | some r =>
          have comm : Connective.and.apply l r = Connective.and.apply r l := Bool.and_comm l r
          simp only [Option.bind_some, Option.map_some, comm]

theorem chainMeets_iff_dotFree (first : FilterAtom) (rest : List (Connective × FilterAtom)) :
    ChainMeets first rest ↔ EachAtom DotFree first rest := by
  rw [← EachAtom.congr (fun a later stops => meansAlone_iff a stops) first rest]
  constructor
  · rintro ⟨-, means⟩
    exact means
  · intro means
    exact ⟨filterResult_chain means, means⟩

/-- The filter of a chain is the left-to-right combination of the filters of its comparisons, each
    of them independent of the text that follows, exactly when no comparison is followed by a dot
    it is sensitive to; and the first two comparisons can then change places around an `AND`. -/
theorem chainMeets_iff :
    (∀ first rest, ChainMeets first rest ↔ EachAtom DotFree first rest) ∧
    ∀ a b rest,
      (ChainMeets a ((.and, b) :: rest) ∧ ChainMeets b ((.and, a) :: rest) ∧
        ∀ event, filterResult (chainText a ((.and, b) :: rest)) event =
          filterResult (chainText b ((.and, a) :: rest)) event) ↔
      EachAtom DotFree a ((.and, b) :: rest) ∧ EachAtom DotFree b ((.and, a) :: rest) := by
  refine ⟨chainMeets_iff_dotFree, ?_⟩
  intro a b rest
  rw [← chainMeets_iff_dotFree, ← chainMeets_iff_dotFree]
  constructor
  · rintro ⟨meets, exchanged, -⟩
    exact ⟨meets, exchanged⟩
  · rintro ⟨meets, exchanged⟩
    refine ⟨meets, exchanged, ?_⟩
    intro event
    rw [meets.1, exchanged.1, leftToRight_exchange]

end Chain

/-- The comparison `x == 5`. -/
def undottedAtom : FilterAtom where
  field := ['x']
  op := .eq
  literal := .integer false ['5']
  fieldNonempty := by decide
  fieldChars := List.all_eq_true.mp (by decide)
  comparison := isComparison_eq
  valid := digits_five

/-- The comparison `b.c == 6`. -/
def dottedAtom : FilterAtom where
  field := ['b', '.', 'c']
  op := .eq
  literal := .integer false ['6']
  fieldNonempty := by decide
  fieldChars := List.all_eq_true.mp (by decide)
  comparison := isComparison_eq
  valid := ⟨by decide, List.all_eq_true.mp (by decide)⟩

/-- An event with the two fields of these comparisons. -/
def dottedEvent : Event where
  type := .log
  timestampNs := 1
  input := none
  data := some (.object [("x", .integer 5), ("b.c", .integer 6)])

/-- `x == 5 AND b.c == 6` does not match an event that `x == 5` and `b.c == 6` match, and that
    `b.c == 6 AND x == 5` matches: the dot of `b.c` makes the `5` before it a real. -/
theorem dottedAtom_changes :
    let _ := literalPcre2
    filterResult "x == 5 AND b.c == 6".toList dottedEvent = some false ∧
      chainText undottedAtom [(.and, dottedAtom)] = "x == 5 AND b.c == 6".toList ∧
      leftToRight dottedEvent (filterResult undottedAtom.text dottedEvent)
        [(.and, dottedAtom)] = some true ∧
      filterResult "b.c == 6 AND x == 5".toList dottedEvent = some true ∧
      ¬ ChainMeets undottedAtom [(.and, dottedAtom)] := by
  have changes : @filterResult literalPcre2 (chainText undottedAtom [(.and, dottedAtom)])
      dottedEvent ≠ @leftToRight literalPcre2 dottedEvent
        (@filterResult literalPcre2 undottedAtom.text dottedEvent) [(.and, dottedAtom)] := by
    decide
  exact ⟨by decide, by decide, by decide, by decide, fun meets => changes (meets.1 dottedEvent)⟩

end Nblex
