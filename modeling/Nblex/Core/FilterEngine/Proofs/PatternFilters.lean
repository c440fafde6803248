import Nblex.Core.FilterEngine.Proofs.NamedTerms

/-!
# Matches of patterns

A pattern is compiled only where the text behind the operator is none of the literals, which are
looked for first. Behind a literal `=~` and `!~` hold of nothing, and what follows in the filter is
the same for both.
-/

namespace Nblex

/-- How a pattern is written: as it is when it has no blanks, or in quotes when it has neither
    quotes nor backslashes. -/
inductive PatternText (pattern : List Char) : List Char → Prop where
  | bare (solid : ∀ c ∈ pattern, isspace c = false) : PatternText pattern pattern
  | quoted (plain : ∀ c ∈ pattern, c ≠ '"' ∧ c ≠ '\\') :
      PatternText pattern ('"' :: (pattern ++ ['"']))

/-- The text starts like a quoted string, a number or a boolean. -/
def startsLiteral (text : List Char) : Bool :=
  startsWith text ['"'] || startsNumber text || startsWith text ['t', 'r', 'u', 'e'] ||
    startsWith text ['f', 'a', 'l', 's', 'e']

theorem PatternText.visible {pattern text : List Char} (written : PatternText pattern text) :
    skipSpace text = text := by
  cases written with
  | bare solid =>
      cases pattern with
      | nil => rfl
      | cons c pattern => exact skipSpace_of_head pattern (solid c List.mem_cons_self)
  | quoted plain => rfl

section Patterns

variable [Pcre2]

/-- Nothing of a bare pattern is left. -/
theorem parseFilterValue_pattern {pattern : List Char} (solid : ∀ c ∈ pattern, isspace c = false)
    (noLiteral : startsLiteral pattern = false)
    (valid : Pcre2.compile (String.ofList pattern) = true)
    {op : FilterOp} (isMatch : op = .patMatch ∨ op = .patNmatch) :
    parseFilterValue op pattern = (.pattern, some (String.ofList pattern), []) := by
  simp only [startsLiteral, Bool.or_eq_false_iff] at noLiteral
  obtain ⟨⟨⟨noQuote, noNumber⟩, noTrue⟩, noFalse⟩ := noLiteral
  have plain : ∀ rest, pattern ≠ '"' :: rest := by
    rintro rest rfl
    cases noQuote
  have all : ∀ c ∈ pattern, (!isspace c) = true := by
    intro c member
    rw [solid c member]
    rfl
  have whole := @takeWhile_stop (fun c => !isspace c) pattern [] all nofun
  rw [List.append_nil] at whole
  rw [parseFilterValue_plain op plain, noNumber, noTrue, noFalse, if_neg Bool.false_ne_true,
    if_neg Bool.false_ne_true, if_neg Bool.false_ne_true, if_pos isMatch, whole.1, whole.2,
    if_pos valid]

/-- A literal is read whatever the operator, and no pattern is compiled. -/
theorem parseFilterValue_startsLiteral {text : List Char} (literal : startsLiteral text = true) :
    ∃ value rest, ∀ op, parseFilterValue op text = (value, none, rest) := by
  by_cases quoted : ∃ body, text = '"' :: body
  · obtain ⟨body, rfl⟩ := quoted
    refine ⟨(parseFilterValue .eq ('"' :: body)).1, (parseFilterValue .eq ('"' :: body)).2.2,
      fun op => ?_⟩
    rw [parseFilterValue, parseFilterValue]
    split <;> rfl
  · have plain : ∀ body, text ≠ '"' :: body := fun body same => quoted ⟨body, same⟩
    have noQuote : startsWith text ['"'] = false := by
      apply Bool.eq_false_iff.mpr
      intro starts
      obtain ⟨body, same⟩ := startsWith_iff.mp starts
      exact plain body same
    rw [startsLiteral, noQuote, Bool.false_or] at literal
    cases number : startsNumber text with
    | true =>
        refine ⟨(parseFilterValue .eq text).1, (parseFilterValue .eq text).2.2, fun op => ?_⟩
        rw [parseFilterValue_plain op plain, parseFilterValue_plain .eq plain, number, if_pos rfl,
          if_pos rfl]
        split <;> rfl
    | false =>
        rw [number, Bool.false_or] at literal
        cases isTrue : startsWith text ['t', 'r', 'u', 'e'] with
        | true =>
            refine ⟨.bool true, text.drop 4, fun op => ?_⟩
            rw [parseFilterValue_plain op plain, number, isTrue]
            rfl
        | false =>
            rw [isTrue, Bool.false_or] at literal
            refine ⟨.bool false, text.drop 5, fun op => ?_⟩
            rw [parseFilterValue_plain op plain, number, isTrue, literal]
            rfl

/-- The rest of a filter depends on what stands in front of it only by its value. -/
theorem parseFilterLoop_left_congr {data : Json} (fuel : Nat) : ∀ {left left' : FilterNode}
    (pos : List Char), evaluateFilterNode left data = evaluateFilterNode left' data →
      (parseFilterLoop fuel left pos).map (fun read => evaluateFilterNode read.1 data) =
        (parseFilterLoop fuel left' pos).map (fun read => evaluateFilterNode read.1 data) := by
  induction fuel with
  | zero => exact fun _ _ => rfl
  | succ fuel ih =>
      intro left left' pos same
      rw [parseFilterLoop, parseFilterLoop]
      cases connective : parseConnective (skipSpace pos) with
      | none => exact congrArg some same
      | some found =>
          obtain ⟨node, next⟩ := found
          dsimp only
          cases parseFilterExpr fuel next with
          | none => rfl
          | some read =>
              apply ih
              obtain rfl | rfl := parseConnective_node connective
              · rw [evaluateFilterNode, evaluateFilterNode, same]
              · rw [evaluateFilterNode, evaluateFilterNode, same]

/-- Over a literal `=~` and `!~` match the same events, whatever follows. -/
theorem matchesText_startsLiteral {name : List Char} (chars : ∀ c ∈ name, isFieldChar c = true)
    {text : List Char} (visible : skipSpace text = text) (literal : startsLiteral text = true)
    (event : Event) :
    matchesText (comparisonText name .patMatch text) event =
      matchesText (comparisonText name .patNmatch text) event := by
  cases carried : event.data with
  | none => rw [matchesText_noData _ carried, matchesText_noData _ carried]
  | some data =>
      by_cases remains : (notPrefix name).2 = []
      · rw [comparisonText, comparisonText,
          matchesText_noField chars (comparisonText_stop _ _) remains
            (termMissing_symbol (by simp) _),
          matchesText_noField chars (comparisonText_stop _ _) remains
            (termMissing_symbol (by simp) _)]
      · obtain ⟨value, rest, reads⟩ := parseFilterValue_startsLiteral literal
        have parsed : ∀ op : FilterOp,
            matchesText (comparisonText name op text) event =
              (((parseFilterLoop ((comparisonText name op text).length + 1)
                (negated (notPrefix name).1
                  (.expr ⟨String.ofList (notPrefix name).2, op, value, none⟩)) rest).map
                fun read => evaluateFilterNode read.1 data)).getD false := by
          intro op
          have term := parseFilterExpr_comparisonText chars remains visible (reads op)
            (comparisonText_length name op text)
          rw [matchesText, filterResult, nblexFilterNew, parseFilterFull, term, Option.map_map]
          simp only [nblexFilterMatches, carried]
          rfl
        have length : (comparisonText name .patMatch text).length =
            (comparisonText name .patNmatch text).length := by
          simp [comparisonText, FilterOp.text]
        rw [parsed, parsed, length]
        apply congrArg fun value => Option.getD value false
        apply parseFilterLoop_left_congr
        rw [evaluateFilterNode_negated, evaluateFilterNode_negated]
        apply congrArg
        simp only [evaluateFilterNode, evaluateFilterExpr]
        cases data.get? (String.ofList (notPrefix name).2) with
        | none => rfl
        | some field => cases field <;> rfl

/-- `=~` matches when the pattern matches the string, and `!~` exactly when `=~` does not. -/
def MatchesPattern (name text : List Char) (pattern subject : String) (event : Event) : Prop :=
  matchesText (comparisonText name .patMatch text) event = Pcre2.exec pattern subject ∧
    matchesText (comparisonText name .patNmatch text) event =
      !matchesText (comparisonText name .patMatch text) event

theorem MatchesPattern.different {name text : List Char} {pattern subject : String} {event : Event}
    (holds : MatchesPattern name text pattern subject event) :
    matchesText (comparisonText name .patMatch text) event ≠
      matchesText (comparisonText name .patNmatch text) event := by
  rw [holds.2]
  exact (Bool.not_ne_self _).symm

/-- With a name without a `NOT` in front, the pattern decides just when its text is no literal. -/
theorem matchesPattern_event_iff {name : List Char} (nonempty : name ≠ [])
    (chars : ∀ c ∈ name, isFieldChar c = true) (plainName : atNot name = false)
    {pattern text : List Char} (written : PatternText pattern text)
    (valid : Pcre2.compile (String.ofList pattern) = true) {event : Event} {data : Json}
    {subject : String} (carried : event.data = some data)
    (found : data.get? (String.ofList name) = some (.string subject)) :
    MatchesPattern name text (String.ofList pattern) subject event ↔
      startsLiteral text = false := by
  constructor
  · intro holds
    apply Bool.eq_false_iff.mpr
    intro literal
    exact holds.different (matchesText_startsLiteral chars written.visible literal event)
  · intro noLiteral
    cases written with
    | quoted plain => cases noLiteral
    | bare solid =>
        have visible := (PatternText.bare solid).visible
        have positive := matchesText_comparison chars (by simp) visible
          (parseFilterValue_pattern solid noLiteral valid (Or.inl rfl)) carried
        have negative := matchesText_comparison chars (by simp) visible
          (parseFilterValue_pattern solid noLiteral valid (Or.inr rfl)) carried
        rw [notPrefix_plain plainName, if_neg nonempty, evaluateFilterExpr, found]
          at positive negative
        rw [MatchesPattern, positive, negative]
        simp [fieldMatches]

/-- `=~` and `!~` follow the pattern on every event with a string exactly when the text of the
    pattern is no literal and the name has no `NOT` in front; and on one event, for such a name,
    exactly when the text of the pattern is no literal. -/
theorem matchesPattern_iff {name : List Char} (nonempty : name ≠ [])
    (chars : ∀ c ∈ name, isFieldChar c = true) {pattern text : List Char}
    (written : PatternText pattern text) (valid : Pcre2.compile (String.ofList pattern) = true) :
    ((∀ (event : Event) (data : Json) (subject : String), event.data = some data →
        data.get? (String.ofList name) = some (.string subject) →
        MatchesPattern name text (String.ofList pattern) subject event) ↔
      startsLiteral text = false ∧ atNot name = false) ∧
    (atNot name = false → ∀ (event : Event) (data : Json) (subject : String),
      event.data = some data → data.get? (String.ofList name) = some (.string subject) →
      (MatchesPattern name text (String.ofList pattern) subject event ↔
        startsLiteral text = false)) := by
  have single : atNot name = false → ∀ (event : Event) (data : Json) (subject : String),
      event.data = some data → data.get? (String.ofList name) = some (.string subject) →
      (MatchesPattern name text (String.ofList pattern) subject event ↔
        startsLiteral text = false) :=
    fun plainName event data subject carried found =>
      matchesPattern_event_iff nonempty chars plainName written valid carried found
  refine ⟨⟨fun follows => ?_, fun ⟨noLiteral, plainName⟩ => ?_⟩, single⟩
  · have here := follows (oneFieldEvent (String.ofList name) (.string "")) _ "" rfl
      (oneFieldEvent_get? _ _)
    have noLiteral : startsLiteral text = false := by
      apply Bool.eq_false_iff.mpr
      intro literal
      exact here.different (matchesText_startsLiteral chars written.visible literal _)
    refine ⟨noLiteral, Bool.eq_false_iff.mpr fun negates => here.different ?_⟩
    cases written with
    | quoted plain => cases noLiteral
    | bare solid =>
        have visible := (PatternText.bare solid).visible
        rw [matchesText_notName chars negates (by simp) visible
            (parseFilterValue_pattern solid noLiteral valid (Or.inl rfl)),
          matchesText_notName chars negates (by simp) visible
            (parseFilterValue_pattern solid noLiteral valid (Or.inr rfl))]
  · intro event data subject carried found
    exact (single plainName event data subject carried found).mpr noLiteral

end Patterns

/-- In quotes the pattern is not compiled: `message !~ "error"` leaves out the message `ok`. -/
theorem quoted_not_matchesPattern :
    ¬ @MatchesPattern literalPcre2 "message".toList "\"error\"".toList "error" "ok"
      (oneFieldEvent "message" (.string "ok")) := by
  intro holds
  apply @MatchesPattern.different literalPcre2 _ _ _ _ _ holds
  apply @matchesText_startsLiteral literalPcre2 "message".toList (by simp [isFieldChar, isalnum])
  · rfl
  · simp [startsLiteral, startsWith]

theorem message_matchesPattern :
    @MatchesPattern literalPcre2 "message".toList "error".toList "error" "io error 5"
      (oneFieldEvent "message" (.string "io error 5")) := by
  have follows := (@matchesPattern_iff literalPcre2 "message".toList (by simp)
    (by simp [isFieldChar, isalnum]) "error".toList "error".toList (.bare (by simp [isspace]))
    (by simp [Pcre2.compile])).1.mpr
      ⟨by simp [startsLiteral, startsWith, startsNumber, isdigit, List.isPrefixOf],
        by simp [atNot, startsWith, List.isPrefixOf]⟩
  simpa using follows (oneFieldEvent "message" (.string "io error 5")) _ "io error 5" rfl
    (by simp [oneFieldEvent_get?])

end Nblex
