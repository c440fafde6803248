import Nblex.Core.FilterEngine.Proofs.EscapedStrings

/-!
# Lists and substrings

`in` and `contains` are read and evaluated to nothing. A list is not read at all: the parser stops
at its parenthesis, and whatever follows there is dropped.
-/

namespace Nblex

/-! ## Texts -/

/-- Values in parentheses. -/
def listText (values : List (List Char)) : List Char :=
  '(' :: (List.intercalate [',', ' '] values ++ [')'])

/-- `name in (values)`. -/
def inText (name : List Char) (values : List FilterLiteral) : List Char :=
  comparisonText name .isIn (listText (values.map FilterLiteral.text))

/-- `name contains "t"`. -/
def containsText (name t : List Char) : List Char :=
  comparisonText name .contains (FilterLiteral.string t).text

/-- An integer or a quoted string. -/
def FilterLiteral.IsListValue : FilterLiteral → Prop
  | .integer _ digits => Digits digits
  | .string body => Quoted body
  | .decimal _ _ _ | .bool _ => False

theorem FilterLiteral.IsListValue.valid {literal : FilterLiteral} (isValue : literal.IsListValue) :
    literal.Valid := by
  cases literal with
  | string body => exact isValue
  | integer negative digits => exact isValue
  | decimal negative whole fraction => exact isValue.elim
  | bool b => exact isValue.elim

/-- A name that is all `NOT`s makes a field of the operator, and finds none behind it. -/
theorem termMissing_word {op : FilterOp} (word : op = .isIn ∨ op = .contains) {value : List Char}
    (visible : skipSpace value = value) (noOperator : parseFilterOp value = none) :
    TermMissing (' ' :: (op.text ++ ' ' :: value)) := by
  have start : skipSpace (' ' :: (op.text ++ ' ' :: value)) = op.text ++ ' ' :: value := by
    rw [skipSpace_blank, skipSpace_op]
  have stop : ∀ c ∈ (' ' :: value).head?, isFieldChar c = false := by
    rintro c ⟨⟩
    rfl
  obtain ⟨taken, dropped⟩ := @takeWhile_stop isFieldChar op.text (' ' :: value) (by
    rcases word with rfl | rfl
    · simp [FilterOp.text, isFieldChar, isalnum]
    · simp [FilterOp.text, isFieldChar, isalnum]) stop
  apply TermMissing.operator
  · rw [start, atNot_stop stop]
    rcases word with rfl | rfl <;> rfl
  · rw [start, taken]
    rcases word with rfl | rfl <;> simp [FilterOp.text]
  · rw [start, dropped, skipSpace_blank, visible]
    exact noOperator

section Lists

variable [Pcre2] {name : List Char}

/-- The value behind `in` is not read when it is a list. -/
theorem parseFilterValue_list (rest : List Char) :
    parseFilterValue .isIn ('(' :: rest) = (.unset, none, '(' :: rest) := by
  rw [parseFilterValue_plain .isIn (by simp)]
  rfl

/-- Whatever stands behind the parenthesis of a list, the filter is an `in` without a value. -/
theorem nblexFilterNew_in (chars : ∀ c ∈ name, isFieldChar c = true) (rest : List Char) :
    nblexFilterNew (comparisonText name .isIn ('(' :: rest)) =
      if (notPrefix name).2 = [] then none
      else some (negated (notPrefix name).1
        (.expr ⟨String.ofList (notPrefix name).2, .isIn, .unset, none⟩)) := by
  have enough := comparisonText_length name .isIn ('(' :: rest)
  rw [nblexFilterNew, parseFilterFull]
  by_cases remains : (notPrefix name).2 = []
  · have term : parseFilterExpr ((comparisonText name .isIn ('(' :: rest)).length + 1)
        (comparisonText name .isIn ('(' :: rest)) = none :=
      parseFilterExpr_noField chars (comparisonText_stop _ _) remains
        (termMissing_word (Or.inl rfl) rfl rfl) enough
    rw [term, if_pos remains]
  · rw [parseFilterExpr_comparisonText chars remains rfl (parseFilterValue_list rest) enough,
      if_neg remains]
    rfl

/-- A list filter has the same value on every event, whatever follows it. -/
theorem matchesText_in (chars : ∀ c ∈ name, isFieldChar c = true) (values : List FilterLiteral)
    (later : List Char) {event : Event} {data : Json} (carried : event.data = some data) :
    matchesText (inText name values ++ later) event =
      (decide ((notPrefix name).2 ≠ []) && (notPrefix name).1.bodd) := by
  have text : inText name values ++ later = comparisonText name .isIn
      ('(' :: (List.intercalate [',', ' '] (values.map FilterLiteral.text) ++
        ([')'] ++ later))) := by
    simp [inText, comparisonText, listText]
  rw [text, matchesText, filterResult, nblexFilterNew_in chars]
  by_cases remains : (notPrefix name).2 = []
  · simp [remains]
  · simp only [if_neg remains, Option.map_some, Option.getD_some, nblexFilterMatches, carried,
      evaluateFilterNode_negated, evaluateFilterNode, evaluateFilterExpr]
    cases data.get? (String.ofList (notPrefix name).2) <;> simp [remains]

/-- `in` matches where one of the comparisons does. -/
def InMeans (name : List Char) (values : List FilterLiteral) : Prop :=
  ∀ event : Event, matchesText (inText name values) event =
    values.any fun value => matchesText (comparisonText name .eq value.text) event

/-- A condition behind the text is not dropped. -/
def KeepsConditions (text : List Char) : Prop :=
  ∀ (c : Connective) (b : FilterAtom) (event : Event), event.data ≠ none →
    matchesText (text ++ ' ' :: (c.text ++ ' ' :: b.text)) event =
      c.apply (matchesText text event) (matchesText b.text event)

/-- `contains` matches the strings with the text in them. -/
def ContainsMeans (name t : List Char) : Prop :=
  ∀ event : Event, matchesText (containsText name t) event = true ↔
    ∃ data s, event.data = some data ∧ data.get? (String.ofList name) = some (.string s) ∧
      t <:+: s.toList

/-- A substring filter has the same value on every event. -/
theorem matchesText_contains (chars : ∀ c ∈ name, isFieldChar c = true) {t : List Char}
    (plain : ∀ c ∈ t, c ≠ '"' ∧ c ≠ '\\') {event : Event} {data : Json}
    (carried : event.data = some data) :
    matchesText (containsText name t) event =
      (decide ((notPrefix name).2 ≠ []) && (notPrefix name).1.bodd) := by
  have reads := @FilterLiteral.Plain.readsAs _ (.string t) plain
  by_cases remains : (notPrefix name).2 = []
  · rw [containsText, comparisonText, matchesText_noField chars (comparisonText_stop _ _) remains
      (termMissing_word (Or.inr rfl) reads.visible rfl)]
    simp [remains]
  · rw [containsText, matchesText_remains chars remains reads.visible (reads.reads _) carried,
      evaluateFilterExpr]
    cases data.get? (String.ofList (notPrefix name).2) <;> simp [remains]

/-- With a name without a `NOT` in front no list filter means what it should. -/
theorem not_inMeans (nonempty : name ≠ []) (chars : ∀ c ∈ name, isFieldChar c = true)
    (plainName : atNot name = false) {value : FilterLiteral} (isValue : value.IsListValue)
    (values : List FilterLiteral) : ¬ InMeans name (value :: values) := by
  intro means
  have reads := isValue.valid.readsAs
  -- a field that the first comparison finds equal
  have equal : ∃ field : Json, fieldEquals field (value.valueBefore []) = true := by
    cases value with
    | string body => exact ⟨.string (String.ofList body), beq_self_eq_true _⟩
    | integer negative digits => exact ⟨.integer _, beq_self_eq_true _⟩
    | decimal negative whole fraction => exact isValue.elim
    | bool b => exact isValue.elim
  obtain ⟨field, equal⟩ := equal
  have here := means (oneFieldEvent (String.ofList name) field)
  have listed := matchesText_in chars (value :: values) [] (rfl :
    (oneFieldEvent (String.ofList name) field).data = some _)
  have compared := matchesText_comparison chars (by simp) reads.visible (reads.reads .eq) (rfl :
    (oneFieldEvent (String.ofList name) field).data = some _)
  rw [List.append_nil, notPrefix_plain plainName] at listed
  rw [notPrefix_plain plainName, if_neg nonempty, evaluateFilterExpr,
    oneFieldEvent_get?] at compared
  simp only [equal, Nat.bodd_zero, Bool.false_xor] at compared
  rw [listed, List.any_cons, compared] at here
  simp at here

/-- The condition `x == true`. -/
def flagAtom : FilterAtom :=
  ⟨['x'], .eq, .bool true, by simp, by simp [isFieldChar, isalnum], isComparison_eq, trivial⟩

theorem matchesText_flagAtom {event : Event} {data : Json} (carried : event.data = some data) :
    matchesText flagAtom.text event =
      evaluateFilterExpr ⟨"x", .eq, .bool true, none⟩ data := by
  have reads := @FilterLiteral.Plain.readsAs _ (.bool true) trivial
  have value := @matchesText_comparison _ ['x'] (by simp [isFieldChar, isalnum]) .eq (by simp) _
    reads.visible _ _ (reads.reads .eq) _ _ carried
  have plainName : notPrefix ['x'] = (0, ['x']) := rfl
  rw [plainName, if_neg (by simp), Nat.bodd_zero, Bool.false_xor] at value
  exact value

/-- What follows a list is dropped. -/
theorem not_keepsConditions (chars : ∀ c ∈ name, isFieldChar c = true)
    (values : List FilterLiteral) : ¬ KeepsConditions (inText name values) := by
  intro keeps
  have value := fun later event data carried =>
    @matchesText_in _ name chars values later event data carried
  cases always : decide ((notPrefix name).2 ≠ []) && (notPrefix name).1.bodd with
  | true =>
      have here := keeps .and flagAtom (oneFieldEvent "y" .null) (by simp [oneFieldEvent])
      have alone := value [] (oneFieldEvent "y" .null) _ rfl
      rw [List.append_nil] at alone
      rw [value _ _ _ rfl, alone, always, matchesText_flagAtom rfl] at here
      simp [Connective.apply, evaluateFilterExpr, Json.get?] at here
  | false =>
      have here := keeps .or flagAtom (oneFieldEvent "x" (.bool true)) (by simp [oneFieldEvent])
      have alone := value [] (oneFieldEvent "x" (.bool true)) _ rfl
      rw [List.append_nil] at alone
      rw [value _ _ _ rfl, alone, always, matchesText_flagAtom rfl] at here
      simp [Connective.apply, evaluateFilterExpr, Json.get?, fieldEquals] at here

/-- No substring filter means what it should. -/
theorem not_containsMeans (chars : ∀ c ∈ name, isFieldChar c = true) {t : List Char}
    (plain : ∀ c ∈ t, c ≠ '"' ∧ c ≠ '\\') : ¬ ContainsMeans name t := by
  intro means
  have found := (means (oneFieldEvent (String.ofList name) (.string (String.ofList t)))).mpr
    ⟨_, _, rfl, oneFieldEvent_get? _ _, by simp⟩
  have other := means (oneFieldEvent (String.ofList name) .null)
  rw [matchesText_contains chars plain rfl] at found other
  obtain ⟨data, s, carried, isString, -⟩ := other.mp found
  obtain rfl := Option.some.inj carried
  rw [oneFieldEvent_get?] at isString
  cases isString

/-- No list filter means what the specification says and keeps the conditions that follow it, and no
    substring filter means what the specification says. -/
theorem listOperators_fail (nonempty : name ≠ []) (chars : ∀ c ∈ name, isFieldChar c = true) :
    (atNot name = false → ∀ values : List FilterLiteral, values ≠ [] →
      (∀ value ∈ values, value.IsListValue) → ¬ InMeans name values) ∧
    (∀ values : List FilterLiteral, ¬ KeepsConditions (inText name values)) ∧
    (∀ t : List Char, (∀ c ∈ t, c ≠ '"' ∧ c ≠ '\\') → ¬ ContainsMeans name t) := by
  refine ⟨fun plainName values some isValue => ?_, not_keepsConditions chars,
    fun t plain => not_containsMeans chars plain⟩
  cases values with
  | nil => exact absurd rfl some
  | cons value values =>
      exact not_inMeans nonempty chars plainName (isValue value List.mem_cons_self) values

end Lists

/-- The list of the documentation. -/
def portList : List FilterLiteral :=
  [.integer false "80".toList, .integer false "443".toList, .integer false "8080".toList]

/-- `network.dst_port in (80, 443, 8080)` is no filter for these ports. -/
theorem portList_not_inMeans : ¬ @InMeans literalPcre2 "network.dst_port".toList portList :=
  @not_inMeans literalPcre2 _ (by simp) (by simp [isFieldChar, isalnum])
    (by simp [atNot, startsWith, List.isPrefixOf]) _
    (by simp [FilterLiteral.IsListValue, Digits, isdigit]) _

theorem port_listOperators_fail :
    ¬ @InMeans literalPcre2 "port".toList portList ∧
      ¬ @KeepsConditions literalPcre2 (inText "port".toList portList) ∧
      ¬ @ContainsMeans literalPcre2 "port".toList "80".toList := by
  obtain ⟨noList, drops, noSubstring⟩ := @listOperators_fail literalPcre2 "port".toList (by simp)
    (by simp [isFieldChar, isalnum])
  refine ⟨noList (by simp [atNot, startsWith, List.isPrefixOf]) portList (by simp [portList]) ?_,
    drops portList, noSubstring _ (by simp)⟩
  simp [portList, FilterLiteral.IsListValue, Digits, isdigit]

end Nblex
