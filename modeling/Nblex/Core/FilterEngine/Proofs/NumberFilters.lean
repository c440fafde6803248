import Nblex.Core.FilterEngine.Proofs.PrintedAtoms

/-!
# Comparisons of numbers

The orderings compare any two numbers, `==` and `!=` only numbers of one JSON type; and an integer
literal is narrowed to thirty-two bits before it is compared.
-/

namespace Nblex

/-! ## The order of numbers -/

/-- The relation of a comparison operator. -/
def relationHolds {α : Type} [LinearOrder α] : FilterOp → α → α → Bool
  | .eq, v, w => v = w
  | .ne, v, w => v ≠ w
  | .lt, v, w => v < w
  | .le, v, w => v ≤ w
  | .gt, v, w => w < v
  | .ge, v, w => w ≤ v
  | .patMatch, _, _ | .patNmatch, _, _ | .isIn, _, _ | .contains, _, _ => false

/-- Comparisons that describe one order: exactly one of `<`, `==` and `>` holds, and the others are
    made of these. -/
structure DescribesOrder (holds : FilterOp → Bool) : Prop where
  one : (holds .lt).toNat + (holds .eq).toNat + (holds .gt).toNat = 1
  le : holds .le = (holds .lt || holds .eq)
  ge : holds .ge = (holds .gt || holds .eq)
  ne : holds .ne = !holds .eq

theorem describesOrder_relationHolds {α : Type} [LinearOrder α] (v w : α) :
    DescribesOrder fun op => relationHolds op v w := by
  rcases lt_trichotomy v w with less | rfl | more
  · constructor <;> simp [relationHolds, less, less.ne, less.le, less.not_gt, less.not_ge]
  · constructor <;> simp [relationHolds]
  · constructor <;> simp [relationHolds, more, more.ne', more.le, more.not_gt, more.not_ge]

/-- Only the six comparisons matter. -/
theorem DescribesOrder.congr {holds holds' : FilterOp → Bool}
    (same : ∀ op, op.isComparison = true → holds op = holds' op) :
    DescribesOrder holds ↔ DescribesOrder holds' := by
  have each : ∀ {f g : FilterOp → Bool}, (∀ op, op.isComparison = true → f op = g op) →
      DescribesOrder f → DescribesOrder g := by
    rintro f g same ⟨one, le, ge, ne⟩
    rw [same _ rfl, same _ rfl, same _ rfl] at one le ge
    rw [same _ rfl, same _ rfl] at ne
    exact ⟨one, le, ge, ne⟩
  exact ⟨each same, each fun op comparison => (same op comparison).symm⟩

/-! ## Numbers -/

/-- The number of a field. -/
def Json.number? : Json → Option ℚ
  | .integer n => some n
  | .real q => some q
  | _ => none

/-- The number of a literal. -/
def FilterValue.number? : FilterValue → Option ℚ
  | .integer n => some n
  | .real q => some q
  | _ => none

/-- Two integers or two reals. -/
def sameNumberType : Json → FilterValue → Bool
  | .integer _, .integer _ => true
  | .real _, .real _ => true
  | _, _ => false

/-- What a comparison of numbers gives; numbers of different types are never equal. -/
def numbersCompare (sameType : Bool) (op : FilterOp) (v w : ℚ) : Bool :=
  match op with
  | .eq => sameType && relationHolds .eq v w
  | .ne => !(sameType && relationHolds .eq v w)
  | op => relationHolds op v w

/-- The comparisons of numbers describe an order unless the numbers are equal and of different
    types. -/
theorem describesOrder_numbersCompare (sameType : Bool) (v w : ℚ) :
    DescribesOrder (fun op => numbersCompare sameType op v w) ↔ sameType = true ∨ v ≠ w := by
  have order := describesOrder_relationHolds v w
  constructor
  · intro described
    by_contra neither
    obtain ⟨different, same⟩ := not_or.mp neither
    obtain rfl := not_not.mp same
    have one := described.one
    simp [numbersCompare, relationHolds, different] at one
  · rintro (rfl | different)
    · exact ⟨order.one, order.le, order.ge, by simp [numbersCompare]⟩
    · have noEquality : relationHolds .eq v w = false := by simp [relationHolds, different]
      have one := order.one
      have le := order.le
      have ge := order.ge
      rw [noEquality] at one le ge
      refine ⟨?_, ?_, ?_, by simp [numbersCompare]⟩
      · simpa [numbersCompare, noEquality] using one
      · simpa [numbersCompare, noEquality] using le
      · simpa [numbersCompare, noEquality] using ge

theorem fieldEquals_number {field : Json} {value : FilterValue} {v w : ℚ}
    (number : field.number? = some v) (literal : value.number? = some w) :
    fieldEquals field value = (sameNumberType field value && relationHolds .eq v w) := by
  cases field with
  | null | bool | string | array | object => cases number
  | integer n =>
      obtain rfl := Option.some.inj number
      cases value with
      | unset | string | bool | pattern => cases literal
      | integer m =>
          obtain rfl := Option.some.inj literal
          simp [fieldEquals, sameNumberType, relationHolds, beq_eq_decide]
      | real r => rfl
  | real q =>
      obtain rfl := Option.some.inj number
      cases value with
      | unset | string | bool | pattern => cases literal
      | integer m => rfl
      | real r =>
          obtain rfl := Option.some.inj literal
          simp [fieldEquals, sameNumberType, relationHolds, beq_eq_decide]

theorem fieldOrdered_number {field : Json} {value : FilterValue} {v w : ℚ}
    (number : field.number? = some v) (literal : value.number? = some w) (op : FilterOp) :
    fieldOrdered op field value = orderHolds op v w := by
  cases field with
  | null | bool | string | array | object => cases number
  | integer n =>
      obtain rfl := Option.some.inj number
      cases value with
      | unset | string | bool | pattern => cases literal
      | integer m =>
          obtain rfl := Option.some.inj literal
          cases op with
          | lt | gt => simp only [fieldOrdered, orderHolds, Rat.intCast_lt_intCast]
          | le | ge => simp only [fieldOrdered, orderHolds, Rat.intCast_le_intCast]
          | eq | ne | patMatch | patNmatch | isIn | contains => rfl
      | real r =>
          obtain rfl := Option.some.inj literal
          rfl
  | real q =>
      obtain rfl := Option.some.inj number
      cases value with
      | unset | string | bool | pattern => cases literal
      | integer m | real r =>
          obtain rfl := Option.some.inj literal
          rfl

section Compared

variable [Pcre2]

/-- A number is compared with a number as numbers are. -/
theorem evaluateFilterExpr_number {data field : Json} {name : String}
    (found : data.get? name = some field) {v w : ℚ} (number : field.number? = some v)
    {value : FilterValue} (literal : value.number? = some w) {op : FilterOp}
    (comparison : op.isComparison = true) :
    evaluateFilterExpr ⟨name, op, value, none⟩ data =
      numbersCompare (sameNumberType field value) op v w := by
  rw [evaluateFilterExpr, found]
  cases op with
  | patMatch | patNmatch | isIn | contains => cases comparison
  | eq => exact fieldEquals_number number literal
  | ne => exact congrArg (!·) (fieldEquals_number number literal)
  | lt | le | gt | ge => exact fieldOrdered_number number literal _

/-- At most one of `<`, `==` and `>` holds of any field and a number. -/
theorem atMostOne_number (data : Json) (name : String) {value : FilterValue} {w : ℚ}
    (literal : value.number? = some w) :
    (evaluateFilterExpr ⟨name, .lt, value, none⟩ data).toNat +
      (evaluateFilterExpr ⟨name, .eq, value, none⟩ data).toNat +
      (evaluateFilterExpr ⟨name, .gt, value, none⟩ data).toNat ≤ 1 := by
  cases found : data.get? name with
  | none => simp [evaluateFilterExpr, found]
  | some field =>
      cases number : field.number? with
      | some v =>
          have exclusive := (describesOrder_relationHolds v w).one
          rw [evaluateFilterExpr_number found number literal rfl,
            evaluateFilterExpr_number found number literal rfl,
            evaluateFilterExpr_number found number literal rfl]
          cases same : sameNumberType field value with
          | true =>
              simp only [numbersCompare, Bool.true_and]
              omega
          | false =>
              simp only [numbersCompare, Bool.false_and, Bool.toNat_false]
              omega
      | none =>
          cases value with
          | unset | string | bool | pattern => cases literal
          | integer m | real r =>
              cases field with
              | integer | real => cases number
              | null | bool | string | array | object =>
                  simp [evaluateFilterExpr, found, fieldEquals, fieldOrdered]

/-- The comparisons of a field with a number describe an order just when the field is a number to
    which that applies. -/
theorem evaluateFilterExpr_describesOrder_iff (data : Json) (name : String) {value : FilterValue}
    {w : ℚ} (literal : value.number? = some w) :
    DescribesOrder (fun op => evaluateFilterExpr ⟨name, op, value, none⟩ data) ↔
      ∃ field v, data.get? name = some field ∧ field.number? = some v ∧
        (sameNumberType field value = true ∨ v ≠ w) := by
  have same : ∀ {field : Json} {v : ℚ}, data.get? name = some field → field.number? = some v →
      (DescribesOrder (fun op => evaluateFilterExpr ⟨name, op, value, none⟩ data) ↔
        sameNumberType field value = true ∨ v ≠ w) := by
    intro field v found number
    rw [← describesOrder_numbersCompare]
    exact DescribesOrder.congr fun op comparison =>
      evaluateFilterExpr_number found number literal comparison
  constructor
  · intro described
    have some := described.one
    cases found : data.get? name with
    | none => simp [evaluateFilterExpr, found] at some
    | some field =>
        cases number : field.number? with
        | some v => exact ⟨field, v, rfl, number, (same found number).mp described⟩
        | none =>
            cases value with
            | unset | string | bool | pattern => cases literal
            | integer m | real r =>
                cases field with
                | integer | real => cases number
                | null | bool | string | array | object =>
                    simp [evaluateFilterExpr, found, fieldEquals, fieldOrdered] at some
  · rintro ⟨field, v, found, number, compared⟩
    exact (same found number).mpr compared

/-- Under an odd number of `NOT`s they describe none. -/
theorem not_describesOrder_negated (data : Json) (name : String) {value : FilterValue} {w : ℚ}
    (literal : value.number? = some w) :
    ¬ DescribesOrder (fun op => !evaluateFilterExpr ⟨name, op, value, none⟩ data) := by
  have negation : ∀ b : Bool, (!b).toNat = 1 - b.toNat := by
    intro b
    cases b <;> rfl
  intro described
  have one := described.one
  have atMost := atMostOne_number data name literal
  rw [negation, negation, negation] at one
  omega

/-- What the comparisons of a name with a literal give. -/
def comparisonsOf (name value : List Char) (event : Event) (op : FilterOp) : Bool :=
  matchesText (comparisonText name op value) event

section Read

variable {name value : List Char} {read : FilterValue} {event : Event} {data : Json} {op : FilterOp}

theorem comparisonsOf_read (chars : ∀ c ∈ name, isFieldChar c = true) (reads : ReadsAs value read)
    (carried : event.data = some data) (comparison : op.isComparison = true) :
    comparisonsOf name value event op =
      if (notPrefix name).2 = [] then false
      else (notPrefix name).1.bodd ^^
        evaluateFilterExpr ⟨String.ofList (notPrefix name).2, op, read, none⟩ data := by
  exact matchesText_comparison chars (comparison_symbol comparison) reads.visible (reads.reads op)
    carried

/-- The comparisons of a name without a `NOT` in front with a number. -/
theorem comparisonsOf_number (nonempty : name ≠ []) (chars : ∀ c ∈ name, isFieldChar c = true)
    (plainName : atNot name = false) (reads : ReadsAs value read) {v w : ℚ}
    (number : read.number? = some w) (carried : event.data = some data) {field : Json}
    (found : data.get? (String.ofList name) = some field) (isNumber : field.number? = some v)
    (comparison : op.isComparison = true) :
    comparisonsOf name value event op = numbersCompare (sameNumberType field read) op v w := by
  rw [comparisonsOf_read chars reads carried comparison, notPrefix_plain plainName,
    if_neg nonempty, evaluateFilterExpr_number found isNumber number comparison, Nat.bodd_zero,
    Bool.false_xor]

end Read

/-- The six comparisons of a name with a number describe an order exactly when the rest of the name,
    behind an even number of `NOT`s, is a number in the event, and one of the type of the literal or
    another number than it. -/
theorem comparisonsOf_describesOrder_iff {name : List Char}
    (chars : ∀ c ∈ name, isFieldChar c = true) {literal : FilterLiteral} (plain : literal.Plain)
    {w : ℚ} (number : literal.value.number? = some w) {event : Event} {data : Json}
    (carried : event.data = some data) :
    DescribesOrder (comparisonsOf name literal.text event) ↔
      (notPrefix name).2 ≠ [] ∧ (notPrefix name).1.bodd = false ∧
        ∃ field v, data.get? (String.ofList (notPrefix name).2) = some field ∧
          field.number? = some v ∧ (sameNumberType field literal.value = true ∨ v ≠ w) := by
  have gives := fun op comparison =>
    @comparisonsOf_read _ name literal.text literal.value event data op chars plain.readsAs carried
      comparison
  by_cases remains : (notPrefix name).2 = []
  · refine iff_of_false (fun described => ?_) (fun holds => holds.1 remains)
    have one := described.one
    rw [gives _ rfl, gives _ rfl, gives _ rfl, if_pos remains, if_pos remains,
      if_pos remains] at one
    cases one
  · simp only [if_neg remains] at gives
    rw [DescribesOrder.congr gives]
    cases (notPrefix name).1.bodd with
    | true =>
        simp only [Bool.true_xor]
        exact iff_of_false (not_describesOrder_negated data _ number)
          (fun holds => absurd holds.2.1 (by simp))
    | false =>
        simp only [Bool.false_xor]
        rw [evaluateFilterExpr_describesOrder_iff data _ number]
        exact ⟨fun order => ⟨remains, trivial, order⟩, fun order => order.2.2⟩

end Compared

theorem hundred_plain : (FilterLiteral.integer false "100".toList).Plain := by
  simp [FilterLiteral.Plain, Digits, isdigit, integerValue, signed, decimalValue]

theorem hundred_number : (FilterLiteral.integer false "100".toList).value.number? = some 100 := by
  simp [FilterLiteral.value, FilterValue.number?, integerValue, signed, decimalValue]

/-- The latency of an event compared with `100`. -/
theorem comparisonsOf_latency {latency : ℚ} {op : FilterOp} (comparison : op.isComparison = true) :
    @comparisonsOf literalPcre2 "latency".toList "100".toList
      (oneFieldEvent "latency" (.real latency)) op = numbersCompare false op latency 100 :=
  @comparisonsOf_number literalPcre2 "latency".toList "100".toList _
    (oneFieldEvent "latency" (.real latency)) _ op (by simp) (by simp [isFieldChar, isalnum])
    (by simp [atNot, startsWith, List.isPrefixOf])
    (@FilterLiteral.Plain.readsAs literalPcre2 _ hundred_plain) latency 100 hundred_number rfl
    (.real latency) (by simp [oneFieldEvent_get?]) rfl comparison

/-- A latency of `100.0` is neither below `100` nor equal to it nor above it. -/
theorem latency_not_describesOrder :
    ¬ DescribesOrder (@comparisonsOf literalPcre2 "latency".toList "100".toList
      (oneFieldEvent "latency" (.real 100))) := by
  intro described
  have one := described.one
  rw [comparisonsOf_latency rfl, comparisonsOf_latency rfl, comparisonsOf_latency rfl] at one
  simp [numbersCompare, relationHolds] at one

/-- A latency of `99.0` is below `100`. -/
theorem latency_describesOrder :
    DescribesOrder (@comparisonsOf literalPcre2 "latency".toList "100".toList
      (oneFieldEvent "latency" (.real 99))) := by
  have plainName : notPrefix "latency".toList = (0, "latency".toList) :=
    notPrefix_plain (by simp [atNot, startsWith, List.isPrefixOf])
  refine (@comparisonsOf_describesOrder_iff literalPcre2 "latency".toList
    (by simp [isFieldChar, isalnum]) _ hundred_plain 100 hundred_number _ _ rfl).mpr ?_
  rw [plainName]
  refine ⟨by simp, rfl, .real 99, 99, by simp [oneFieldEvent_get?], rfl, Or.inr ?_⟩
  simp

/-! ## Integers -/

/-- Two numbers stand in the same relations to a third if they are the same or on the same side of
    it. -/
theorem relationHolds_agree_iff (v n m : Int) :
    (∀ op, op.isComparison = true → relationHolds op v m = relationHolds op v n) ↔
      m = n ∨ (v < n ∧ v < m) ∨ (n < v ∧ m < v) := by
  constructor
  · intro agree
    rcases lt_trichotomy v n with less | rfl | more
    · have below := agree .lt rfl
      simp only [relationHolds, less, decide_true, decide_eq_true_eq] at below
      exact Or.inr (Or.inl ⟨less, below⟩)
    · have equal := agree .eq rfl
      simp only [relationHolds, decide_true, decide_eq_true_eq] at equal
      exact Or.inl equal.symm
    · have above := agree .gt rfl
      simp only [relationHolds, more, decide_true, decide_eq_true_eq] at above
      exact Or.inr (Or.inr ⟨more, above⟩)
  · rintro (rfl | sameSide) op comparison
    · rfl
    · cases op with
      | patMatch | patNmatch | isIn | contains => cases comparison
      | eq | ne | lt | le | gt | ge =>
          simp only [relationHolds, decide_eq_decide]
          omega

theorem numbersCompare_integers (op : FilterOp) (v m : Int) :
    numbersCompare true op (v : ℚ) (m : ℚ) = relationHolds op v m := by
  cases op with
  | lt | gt => simp only [numbersCompare, relationHolds, Rat.intCast_lt_intCast]
  | le | ge => simp only [numbersCompare, relationHolds, Rat.intCast_le_intCast]
  | eq | ne => simp [numbersCompare, relationHolds]
  | patMatch | patNmatch | isIn | contains => rfl

section Integers

variable [Pcre2]

/-- Each comparison of the name with the literal gives the relation of the integers. -/
def ComparesIntegers (name literal : List Char) (event : Event) (v n : Int) : Prop :=
  ∀ op, op.isComparison = true → comparisonsOf name literal event op = relationHolds op v n

/-- The value of an integer literal is its low thirty-two bits. -/
theorem integer_readsAs {negative : Bool} {digits : List Char} (number : Digits digits)
    (lower : -2 ^ 63 ≤ integerValue negative digits)
    (upper : integerValue negative digits < 2 ^ 63) :
    ReadsAs (FilterLiteral.integer negative digits).text
      (.integer (toInt32 (integerValue negative digits))) := by
  have read := @FilterLiteral.Valid.readsAs _ (.integer negative digits) number
  have noClamp : clampLong (integerValue negative digits) = integerValue negative digits := by
    unfold clampLong
    omega
  rw [FilterLiteral.valueBefore, if_neg (by simp), ← integerValue, noClamp] at read
  exact read

variable {name : List Char} {negative : Bool} {digits : List Char} {n : Int}

/-- With a name without a `NOT` in front, an integer is compared as it should be just when the
    literal and its low thirty-two bits are the same or on the same side of the integer. -/
theorem comparesIntegers_event_iff (nonempty : name ≠ []) (chars : ∀ c ∈ name, isFieldChar c = true)
    (plainName : atNot name = false) (number : Digits digits)
    (value : integerValue negative digits = n) (lower : -2 ^ 63 ≤ n) (upper : n < 2 ^ 63)
    {event : Event} {data : Json} {v : Int} (carried : event.data = some data)
    (found : data.get? (String.ofList name) = some (.integer v)) :
    ComparesIntegers name (FilterLiteral.integer negative digits).text event v n ↔
      toInt32 n = n ∨ (v < n ∧ v < toInt32 n) ∨ (n < v ∧ toInt32 n < v) := by
  subst value
  have reads := @integer_readsAs _ negative digits number lower upper
  rw [← relationHolds_agree_iff, ComparesIntegers]
  refine forall_congr' fun op => forall_congr' fun comparison => ?_
  rw [comparisonsOf_number nonempty chars plainName reads rfl carried found rfl comparison]
  show numbersCompare true op _ _ = _ ↔ _
  rw [numbersCompare_integers]

/-- The comparisons with a literal of sixty-four bits give the relations of the integers in every
    event exactly when the name has no `NOT` in front and the literal has thirty-two bits; and in
    one event, for such a name, exactly when the literal and its low thirty-two bits are the same or
    on the same side of the field. -/
theorem comparesIntegers_iff (nonempty : name ≠ []) (chars : ∀ c ∈ name, isFieldChar c = true)
    (number : Digits digits) (value : integerValue negative digits = n) (lower : -2 ^ 63 ≤ n)
    (upper : n < 2 ^ 63) :
    ((∀ (event : Event) (data : Json) (v : Int), event.data = some data →
        data.get? (String.ofList name) = some (.integer v) → -2 ^ 63 ≤ v → v < 2 ^ 63 →
        ComparesIntegers name (FilterLiteral.integer negative digits).text event v n) ↔
      atNot name = false ∧ -2 ^ 31 ≤ n ∧ n < 2 ^ 31) ∧
    (atNot name = false → ∀ (event : Event) (data : Json) (v : Int), event.data = some data →
      data.get? (String.ofList name) = some (.integer v) →
      (ComparesIntegers name (FilterLiteral.integer negative digits).text event v n ↔
        toInt32 n = n ∨ (v < n ∧ v < toInt32 n) ∨ (n < v ∧ toInt32 n < v))) := by
  have single : atNot name = false → ∀ (event : Event) (data : Json) (v : Int),
      event.data = some data → data.get? (String.ofList name) = some (.integer v) →
      (ComparesIntegers name (FilterLiteral.integer negative digits).text event v n ↔
        toInt32 n = n ∨ (v < n ∧ v < toInt32 n) ∨ (n < v ∧ toInt32 n < v)) :=
    fun plainName event data v carried found =>
      comparesIntegers_event_iff nonempty chars plainName number value lower upper carried found
  refine ⟨⟨fun compares => ?_, fun ⟨plainName, least, most⟩ => ?_⟩, single⟩
  · -- the event whose field is the literal itself shows both
    have here := compares (oneFieldEvent (String.ofList name) (.integer n)) _ n rfl
      (oneFieldEvent_get? _ _) lower upper
    cases negates : atNot name with
    | false =>
        have same := (single negates _ _ n rfl (oneFieldEvent_get? _ _)).mp here
        refine ⟨rfl, ?_⟩
        unfold toInt32 at same
        omega
    | true =>
        have read := @integer_readsAs _ negative digits number (value ▸ lower) (value ▸ upper)
        have equal := here .eq rfl
        have unequal := here .ne rfl
        rw [comparisonsOf, matchesText_notName chars negates (by simp) read.visible (read.reads _)]
          at equal unequal
        rw [equal] at unequal
        simp [relationHolds] at unequal
  · intro event data v carried found _ _
    exact (single plainName event data v carried found).mpr (Or.inl (toInt32_of_mem least most))

end Integers

theorem billions_value : integerValue false "5000000000".toList = 5000000000 := by
  simp [integerValue, signed, decimalValue]

theorem billions_digits : Digits "5000000000".toList := by simp [Digits, isdigit]

theorem bytes_chars : ∀ c ∈ "bytes".toList, isFieldChar c = true := by simp [isFieldChar, isalnum]

/-- A count of five thousand million bytes is not equal to `5000000000`. -/
theorem bytes_not_comparesIntegers :
    ¬ @ComparesIntegers literalPcre2 "bytes".toList "5000000000".toList
      (oneFieldEvent "bytes" (.integer 5000000000)) 5000000000 5000000000 := by
  intro compares
  have sides := (@comparesIntegers_event_iff literalPcre2 _ _ _ _ (by simp) bytes_chars
    (by simp [atNot, startsWith, List.isPrefixOf]) billions_digits billions_value (by simp)
    (by simp)
    (oneFieldEvent "bytes" (.integer 5000000000)) _ 5000000000 rfl
    (by simp [oneFieldEvent_get?])).mp compares
  simp [toInt32] at sides

/-- A negative number is below the literal and below its low thirty-two bits. -/
theorem bytes_comparesIntegers :
    @ComparesIntegers literalPcre2 "bytes".toList "5000000000".toList
      (oneFieldEvent "bytes" (.integer (-1))) (-1) 5000000000 :=
  ((@comparesIntegers_iff literalPcre2 "bytes".toList false "5000000000".toList 5000000000 (by simp)
    bytes_chars billions_digits billions_value (by simp) (by simp)).2
    (by simp [atNot, startsWith, List.isPrefixOf]) (oneFieldEvent "bytes" (.integer (-1))) _
    (-1) rfl
    (by simp [oneFieldEvent_get?])).mpr (by simp [toInt32])

end Nblex
