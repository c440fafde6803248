import Nblex.Parsers.Proofs.Reading

/-!
# Parsing a canonical text

Stage by stage the parser reads what the canonical text says: the statement forms are told apart
by their first word, and the filter in a stage ends where the next clause or stage begins.
-/

namespace Nblex

namespace NqlParser

section Statements

variable [Pcre2]

theorem filter_reads (input : List Char) {keywords : List (List Char)}
    (clean : areKeywords keywords = true) (filter : FilterText keywords) {tail : List Char}
    (ends : EndsFilter keywords tail) :
    Reads (parseFilterExpr input keywords true) filter.filter filter.text tail := by
  intro pos here
  refine ⟨skipSpace tail, ?_, At.skipped (At.refl tail)⟩
  have same : parseFilterExpr input keywords true pos =
      parseFilterExpr input keywords true (filter.text ++ tail) := by
    unfold parseFilterExpr
    rw [here]
  rw [same, parseFilterExpr_text input clean filter ends]

theorem where_reads (input : List Char) {keywords : List (List Char)}
    (clean : areKeywords keywords = true) (condition : Option (FilterText keywords))
    {tail : List Char} (ends : EndsFilter keywords tail)
    (absent : startsWithCase (skipSpace tail) "where".toList = false) :
    Reads (parseWhere input keywords) (condition.map FilterText.filter)
      (clauseText "where" FilterText.text condition) tail := by
  have each : ∀ filter : FilterText keywords,
      Reads (fun pos => andThen (parseFilterExpr input keywords true pos) fun filter pos =>
        .ok (some filter, pos)) (some filter.filter) filter.text tail := by
    intro filter
    have first : Reads (parseFilterExpr input keywords true) filter.filter filter.text
        ([] ++ tail) := filter_reads input clean filter ends
    rw [← List.append_nil filter.text]
    exact first.andThen (Reads.ok (some filter.filter) tail)
  have clause := parseClause_reads "where" (by decide) none each absent condition
  cases condition with
  | none => exact clause
  | some filter => exact clause

/-! ## Stages -/

theorem parseCorrelate_reads (input : List Char) (spelling : Spelling)
    (left : FilterText ["with".toList, "within".toList, "|".toList])
    (right : FilterText ["within".toList, "|".toList]) (within : Option Duration)
    {tail : List Char} (ends : StageEnd tail) {pos : List Char}
    (here : At pos ((StageTree.correlate left right within).text spelling ++ tail)) :
    ∃ pos', parseCorrelate input pos =
      some (.ok ((StageTree.correlate left right within).stage, pos')) ∧ At pos' tail := by
  have keyword : matchKeyword "correlate".toList pos = (true, ' ' :: (left.text ++
      (" with ".toList ++ (right.text ++ clauseText "within" (Duration.text spelling) within))
        ++ tail)) :=
    matchKeyword_read (by decide) here rfl
  have leftEnds : EndsFilter ["with".toList, "within".toList, "|".toList]
      (" with ".toList ++ (right.text ++ clauseText "within" (Duration.text spelling) within)
        ++ tail) :=
    Or.inr ⟨_, rfl, Or.inr ⟨"with".toList, by decide, rfl⟩⟩
  obtain ⟨pos₁, leftRead, at₁⟩ := filter_reads input (by decide) left leftEnds
    (' ' :: (left.text ++ (" with ".toList ++ (right.text ++
      clauseText "within" (Duration.text spelling) within)) ++ tail))
    (by rw [List.append_assoc]; exact (At.refl _).blank)
  have withRead : matchKeyword "with".toList pos₁ = (true, ' ' :: (right.text ++
      clauseText "within" (Duration.text spelling) within ++ tail)) :=
    matchKeyword_read (by decide) at₁.of_blank rfl
  have rightEnds : EndsFilter ["within".toList, "|".toList]
      (clauseText "within" (Duration.text spelling) within ++ tail) :=
    clauseText_ends (by decide) _ within (ends.endsFilter _)
  obtain ⟨pos₂, rightRead, at₂⟩ := filter_reads input (by decide) right rightEnds
    (' ' :: (right.text ++ clauseText "within" (Duration.text spelling) within ++ tail))
    (by rw [List.append_assoc]; exact (At.refl _).blank)
  obtain ⟨pos₃, withinRead, at₃⟩ := parseClause_reads "within" (by decide) 0
    (fun duration => parseDuration_reads spelling duration tail) (ends.absent rfl rfl) within
    pos₂ at₂
  refine ⟨pos₃, ?_, at₃⟩
  rw [parseCorrelate, keyword]
  simp only [leftRead, andThen, withRead, rightRead, withinRead, within_default]
  rfl

theorem clauseEnd_where {keywords : List (List Char)}
    (condition : Option (FilterText keywords)) {tail : List Char} (ends : ClauseEnd tail) :
    ClauseEnd (clauseText "where" FilterText.text condition ++ tail) := by
  cases condition with
  | none => exact ends
  | some filter => exact ⟨(by decide : isspace ' ' = true), (by decide : some 'w' ≠ some ','), rfl⟩

theorem parseAggregate_reads (input : List Char) (spelling : Spelling) (first : FuncTree)
    (funcs : List FuncTree) (groupBy : List Identifier)
    (condition : Option (FilterText ["window".toList, "|".toList])) (window : Option WindowTree)
    {tail : List Char} (ends : StageEnd tail) {pos : List Char}
    (here : At pos
      ((StageTree.aggregate first funcs groupBy condition window).text spelling ++ tail)) :
    ∃ pos', parseAggregate input pos =
      some (.ok ((StageTree.aggregate first funcs groupBy condition window).stage, pos')) ∧
        At pos' tail := by
  have keyword : matchKeyword "aggregate".toList pos = (true, ' ' :: (first.text ++
      (commaText FuncTree.text funcs ++ (groupByText groupBy ++
        (clauseText "where" FilterText.text condition ++
          clauseText "window" (WindowTree.text spelling) window))) ++ tail)) :=
    matchKeyword_read (by decide) here rfl
  -- from the last clause to the first, what follows a clause lets it end
  have atWindow := parseClause_reads "window" (by decide) ⟨.none, 0, 0, 0⟩
    (fun window => parseWindow_reads spelling window tail) (ends.absent rfl rfl) window
  have windowEnd := clauseEnd_window (WindowTree.text spelling) window ends.clauseEnd
  have atWhere := where_reads input (by decide) condition
    (clauseText_ends (by decide) (WindowTree.text spelling) window
      (ends.endsFilter ["window".toList, "|".toList]))
    (window_noWhere (WindowTree.text spelling) window ends)
  have whereEnd := clauseEnd_where condition windowEnd
  have atBy := groupBy_reads groupBy whereEnd.blank whereEnd.noComma whereEnd.noBy
  have atFuncs := parseFunctions_reads first funcs (groupByText_noComma groupBy whereEnd)
  obtain ⟨pos₁, funcsRead, at₁⟩ := atFuncs (' ' :: (first.text ++
      (commaText FuncTree.text funcs ++ (groupByText groupBy ++
        (clauseText "where" FilterText.text condition ++
          clauseText "window" (WindowTree.text spelling) window))) ++ tail))
    (by simp only [List.append_assoc]; exact (At.refl _).blank)
  obtain ⟨pos₂, fieldsRead, at₂⟩ := atBy pos₁ at₁
  obtain ⟨pos₃, filterRead, at₃⟩ := atWhere pos₂ at₂
  obtain ⟨pos₄, windowRead, at₄⟩ := atWindow pos₃ at₃
  refine ⟨pos₄, ?_, at₄⟩
  rw [parseAggregate, keyword]
  simp only [funcsRead, andThen, fieldsRead, filterRead, windowRead]
  rfl

theorem parseShow_fields (input : List Char) (spelling : Spelling) (first : Identifier)
    (fields : List Identifier) (condition : Option (FilterText ["|".toList])) {tail : List Char}
    (ends : StageEnd tail) {pos : List Char}
    (here : At pos ((StageTree.showFields first fields condition).text spelling ++ tail)) :
    ∃ pos', parseShow input pos =
      some (.ok ((StageTree.showFields first fields condition).stage, pos')) ∧ At pos' tail := by
  have keyword : matchKeyword "show".toList pos = (true, ' ' :: (namesText first fields ++
      clauseText "where" FilterText.text condition ++ tail)) :=
    matchKeyword_read (by decide) here rfl
  have atWhere := where_reads input (by decide) condition (ends.endsFilter ["|".toList])
    (ends.absent rfl rfl)
  have whereEnd := clauseEnd_where condition ends.clauseEnd
  have atFields := showFields_read first fields whereEnd.blank whereEnd.noComma
  have noStar := first.noStar fields (clauseText "where" FilterText.text condition ++ tail)
  rw [← List.append_assoc] at noStar
  obtain ⟨pos₁, fieldsRead, at₁⟩ := atFields (skipSpace (' ' :: (namesText first fields ++
      clauseText "where" FilterText.text condition ++ tail)))
    (by rw [List.append_assoc]; exact (At.refl _).blank.skipped)
  obtain ⟨pos₂, filterRead, at₂⟩ := atWhere pos₁ at₁
  refine ⟨pos₂, ?_, at₂⟩
  rw [parseShow, keyword]
  simp only [noStar, fieldsRead, andThen, filterRead]
  rfl

/-- `*` with its condition, behind `show` or alone. -/
theorem showAll_read (input : List Char) (condition : Option (FilterText ["|".toList]))
    {tail : List Char} (ends : StageEnd tail) :
    ∃ pos', parseWhere input ["|".toList]
        (clauseText "where" FilterText.text condition ++ tail) =
      .ok (condition.map FilterText.filter, pos') ∧ At pos' tail :=
  where_reads input (by decide) condition (ends.endsFilter ["|".toList]) (ends.absent rfl rfl) _
    (At.refl _)

theorem parseShow_all (input : List Char) (condition : Option (FilterText ["|".toList]))
    {tail : List Char} (ends : StageEnd tail) {pos : List Char}
    (here : At pos ("show *".toList ++ clauseText "where" FilterText.text condition ++ tail)) :
    ∃ pos', parseShow input pos =
      some (.ok ((StageTree.showAll condition).stage, pos')) ∧ At pos' tail := by
  have keyword : matchKeyword "show".toList pos = (true, ' ' :: '*' ::
      (clauseText "where" FilterText.text condition ++ tail)) :=
    matchKeyword_read (by decide) here rfl
  have star : consumeChar '*' (' ' :: '*' ::
      (clauseText "where" FilterText.text condition ++ tail)) =
        (true, clauseText "where" FilterText.text condition ++ tail) :=
    consumeChar_read (by decide) (At.refl _).blank
  obtain ⟨pos', filterRead, atTail⟩ := showAll_read input condition ends
  refine ⟨pos', ?_, atTail⟩
  rw [parseShow, keyword]
  simp only [star, filterRead, andThen]
  rfl

theorem parseSelectAll_reads (input : List Char) (condition : Option (FilterText ["|".toList]))
    {tail : List Char} (ends : StageEnd tail) {pos : List Char}
    (here : At pos ("*".toList ++ clauseText "where" FilterText.text condition ++ tail)) :
    ∃ pos', parseSelectAll input pos =
      some (.ok ((StageTree.showAll condition).stage, pos')) ∧ At pos' tail := by
  have star : consumeChar '*' pos =
      (true, clauseText "where" FilterText.text condition ++ tail) :=
    consumeChar_read (by decide) here
  obtain ⟨pos', filterRead, atTail⟩ := showAll_read input condition ends
  refine ⟨pos', ?_, atTail⟩
  rw [parseSelectAll, star]
  simp only [filterRead, andThen]
  rfl

theorem parseFilterQuery_reads (input : List Char) (source : FilterText ["|".toList])
    {tail : List Char} (ends : StageEnd tail) :
    Reads (parseFilterQuery input) (.filter source.filter) source.text tail := by
  have first : Reads (parseFilterExpr input ["|".toList] true) source.filter source.text
      ([] ++ tail) := filter_reads input (by decide) source (ends.endsFilter _)
  rw [← List.append_nil source.text]
  exact first.andThen (Reads.ok (Stage.filter source.filter) tail)

/-! ## The statement forms apart -/

omit [Pcre2] in
/-- A statement is of another form if its keyword is not found. -/
theorem none_of_absent {α : Type} {found : Bool × List Char} {parse : List Char → Option α}
    (absent : found.1 = false) :
    (match found with
      | (false, _) => none
      | (true, pos) => parse pos) = none := by
  obtain ⟨isFound, rest⟩ := found
  cases absent
  rfl

theorem parseCorrelate_none (input : List Char) {pos : List Char}
    (absent : (matchKeyword "correlate".toList pos).1 = false) :
    parseCorrelate input pos = none := none_of_absent absent

theorem parseAggregate_none (input : List Char) {pos : List Char}
    (absent : (matchKeyword "aggregate".toList pos).1 = false) :
    parseAggregate input pos = none := none_of_absent absent

theorem parseShow_none (input : List Char) {pos : List Char}
    (absent : (matchKeyword "show".toList pos).1 = false) : parseShow input pos = none :=
  none_of_absent absent

theorem parseSelectAll_none (input : List Char) {pos : List Char}
    (absent : (consumeChar '*' pos).1 = false) : parseSelectAll input pos = none :=
  none_of_absent absent

/-- Each stage is read as the form it is written in. -/
theorem parseSingleQuery_reads (input : List Char) (spelling : Spelling) (stage : StageTree)
    {tail : List Char} (ends : StageEnd tail) :
    Reads (parseSingleQuery input) stage.stage (stage.text spelling) tail := by
  intro pos here
  cases stage with
  | correlate left right within =>
      obtain ⟨pos', parsed, atTail⟩ :=
        parseCorrelate_reads input spelling left right within ends here
      refine ⟨pos', ?_, atTail⟩
      rw [parseSingleQuery, parsed]
  | aggregate first funcs groupBy condition window =>
      have leads : lead pos = some 'a' := here.lead
      have noCorrelate := parseCorrelate_none input (matchKeyword_lead (by decide) leads rfl)
      obtain ⟨pos', parsed, atTail⟩ :=
        parseAggregate_reads input spelling first funcs groupBy condition window ends here
      refine ⟨pos', ?_, atTail⟩
      rw [parseSingleQuery, noCorrelate, parsed]
  | showFields first fields condition =>
      have leads : lead pos = some 's' := here.lead
      have noCorrelate := parseCorrelate_none input (matchKeyword_lead (by decide) leads rfl)
      have noAggregate := parseAggregate_none input (matchKeyword_lead (by decide) leads rfl)
      obtain ⟨pos', parsed, atTail⟩ :=
        parseShow_fields input spelling first fields condition ends here
      refine ⟨pos', ?_, atTail⟩
      rw [parseSingleQuery, noCorrelate, noAggregate, parsed]
  | showAll condition =>
      have atText : At pos ((if spelling.bareStar then "*".toList else "show *".toList) ++
        clauseText "where" FilterText.text condition ++ tail) := here
      cases bare : spelling.bareStar with
      | true =>
          rw [bare] at atText
          have leads : lead pos = some '*' := atText.lead
          have noCorrelate := parseCorrelate_none input (matchKeyword_lead (by decide) leads rfl)
          have noAggregate := parseAggregate_none input (matchKeyword_lead (by decide) leads rfl)
          have noShow := parseShow_none input (matchKeyword_lead (by decide) leads rfl)
          obtain ⟨pos', parsed, atTail⟩ := parseSelectAll_reads input condition ends atText
          refine ⟨pos', ?_, atTail⟩
          rw [parseSingleQuery, noCorrelate, noAggregate, noShow, parsed]
      | false =>
          rw [bare] at atText
          have leads : lead pos = some 's' := atText.lead
          have noCorrelate := parseCorrelate_none input (matchKeyword_lead (by decide) leads rfl)
          have noAggregate := parseAggregate_none input (matchKeyword_lead (by decide) leads rfl)
          obtain ⟨pos', parsed, atTail⟩ := parseShow_all input condition ends atText
          refine ⟨pos', ?_, atTail⟩
          rw [parseSingleQuery, noCorrelate, noAggregate, parsed]
  | filter source plain =>
      have atText : At pos (source.text ++ tail) := here
      simp only [opensStatement, List.any_cons, List.any_nil, Bool.or_false,
        Bool.or_eq_false_iff] at plain
      obtain ⟨⟨correlate, aggregate, show_⟩, star⟩ := plain
      have blank := ends.blankOrEnd
      rw [← matchKeyword_append (by decide) source.not_blank blank atText] at correlate
      rw [← matchKeyword_append (by decide) source.not_blank blank atText] at aggregate
      rw [← matchKeyword_append (by decide) source.not_blank blank atText] at show_
      rw [← consumeChar_append source.not_blank atText] at star
      obtain ⟨pos', parsed, atTail⟩ := parseFilterQuery_reads input source ends pos atText
      refine ⟨pos', ?_, atTail⟩
      rw [parseSingleQuery, parseCorrelate_none input correlate,
        parseAggregate_none input aggregate, parseShow_none input show_,
        parseSelectAll_none input star]
      exact parsed

/-! ## Queries -/

theorem laterText_end (spelling : Spelling) (stages : List StageTree) :
    StageEnd (laterText spelling stages) := by
  cases stages with
  | nil => exact Or.inl rfl
  | cons stage stages => exact Or.inr ⟨_, rfl⟩

theorem parseStages_reads (input : List Char) (spelling : Spelling) (stages : List StageTree) :
    ∀ fuel, stages.length < fuel →
      Reads (parseStages input fuel) (stages.map StageTree.stage) (laterText spelling stages)
        [] := by
  induction stages with
  | nil =>
      intro fuel enough
      cases fuel with
      | zero => exact absurd enough (Nat.not_lt_zero _)
      | succ fuel =>
          apply Reads.nothing
          intro pos here
          have start : skipSpace pos = [] := here
          rw [parseStages, start]
          rfl
  | cons stage stages ih =>
      intro fuel enough
      cases fuel with
      | zero => exact absurd enough (Nat.not_lt_zero _)
      | succ fuel =>
          intro pos here
          have start : skipSpace pos =
              '|' :: ' ' :: (stage.text spelling ++ laterText spelling stages) := by
            rw [List.append_nil] at here
            exact here
          obtain ⟨pos₁, stageRead, at₁⟩ := parseSingleQuery_reads input spelling stage
            (laterText_end spelling stages)
            (' ' :: (stage.text spelling ++ laterText spelling stages))
            (At.refl _).blank
          obtain ⟨pos₂, laterRead, at₂⟩ := ih fuel (Nat.lt_of_succ_lt_succ enough) pos₁
            (by rw [List.append_nil]; exact at₁)
          refine ⟨pos₂, ?_, at₂⟩
          rw [parseStages, start]
          simp only [stageRead, andThen, laterRead]
          rfl

theorem laterText_length (spelling : Spelling) (stages : List StageTree) :
    stages.length ≤ (laterText spelling stages).length := by
  induction stages with
  | nil => exact Nat.zero_le _
  | cons stage stages ih =>
      have step : laterText spelling (stage :: stages) =
          " | ".toList ++ stage.text spelling ++ laterText spelling stages := rfl
      have three : " | ".toList.length = 3 := by decide
      rw [step, List.length_append, List.length_append, List.length_cons]
      omega

theorem StageTree.not_blank (spelling : Spelling) (stage : StageTree) (tail : List Char) :
    skipSpace (stage.text spelling ++ tail) ≠ [] := by
  cases stage with
  | filter source plain =>
      show skipSpace (source.text ++ tail) ≠ []
      rw [skipSpace_append source.not_blank]
      intro empty
      exact source.not_blank (List.append_eq_nil_iff.mp empty).1
  | correlate left right within =>
      intro empty
      cases empty
  | aggregate first funcs groupBy condition window =>
      intro empty
      cases empty
  | showAll condition =>
      show skipSpace ((if spelling.bareStar then "*".toList else "show *".toList) ++
        clauseText "where" FilterText.text condition ++ tail) ≠ []
      intro empty
      cases bare : spelling.bareStar with
      | true =>
          rw [bare] at empty
          cases empty
      | false =>
          rw [bare] at empty
          cases empty
  | showFields first fields condition =>
      intro empty
      cases empty

theorem nqlParseEx_text (spelling : Spelling) (query : QueryTree) :
    nqlParseEx (query.text spelling) = .ok query.query := by
  obtain ⟨pos₁, firstRead, at₁⟩ := parseSingleQuery_reads (query.text spelling) spelling
    query.first (laterText_end spelling query.later) (skipSpace (query.text spelling))
    (At.refl (query.text spelling)).skipped
  have enough : query.later.length < (query.text spelling).length + 1 := by
    have lengths := laterText_length spelling query.later
    rw [QueryTree.text, List.length_append]
    omega
  obtain ⟨pos₂, laterRead, at₂⟩ := parseStages_reads (query.text spelling) spelling query.later _
    enough pos₁ (by rw [List.append_nil]; exact at₁)
  have finished : skipSpace pos₂ = [] := at₂
  have started : skipSpace (query.text spelling) ≠ [] :=
    query.first.not_blank spelling (laterText spelling query.later)
  rw [nqlParseEx, if_neg started]
  simp only [parsePipeline, firstRead, andThen, laterRead, finished]
  cases later : query.later with
  | nil => simp [QueryTree.query, later]
  | cons stage stages => simp [QueryTree.query, later]

end Statements

/-- Parsing the canonical text of a query gives the query back. The scanner of the filters in it
    passes over what stands in double quotes or in parentheses, whatever pipes and keywords it
    holds. -/
theorem nqlParse_text [Pcre2] :
    (∀ (spelling : Spelling) (query : QueryTree),
      nqlParse (query.text spelling) = some query.query) ∧
    (∀ (keywords : List (List Char)) (prev : Option Char) (depth : Nat) (body tail : List Char),
      QuotedBy '"' body →
      scanFilter keywords true prev none depth ('"' :: (body ++ '"' :: tail)) =
        keepAll ('"' :: (body ++ ['"']))
          (scanFilter keywords true (some '"') none depth tail)) ∧
    (∀ (keywords : List (List Char)) (prev : Option Char) (depth : Nat) (body tail : List Char),
      InParens body →
      scanFilter keywords true prev none depth ('(' :: (body ++ ')' :: tail)) =
        keepAll ('(' :: (body ++ [')']))
          (scanFilter keywords true (some ')') none depth tail)) := by
  refine ⟨?_, ?_, ?_⟩
  · intro spelling query
    rw [nqlParse, nqlParseEx_text]
    rfl
  · intro keywords prev depth body tail quoted
    exact scanFilter_quoted keywords true rfl quoted prev depth tail
  · intro keywords prev depth body tail balanced
    exact scanFilter_group keywords true balanced prev depth tail

theorem quotedBy_plain {quote : Char} {body : List Char}
    (plain : body.all (fun c => c ≠ '\\' && c ≠ quote) = true) : QuotedBy quote body := by
  induction body with
  | nil => exact .nil
  | cons c body ih =>
      rw [List.all_cons, Bool.and_eq_true, Bool.and_eq_true] at plain
      obtain ⟨⟨noEscape, noQuote⟩, rest⟩ := plain
      exact .plain (of_decide_eq_true noEscape) (of_decide_eq_true noQuote) (ih rest)

/-- The filter `a=="| with"`. -/
def quotedFilter : @FilterText literalPcre2 ["|".toList] :=
  @FilterText.mk literalPcre2 _ ['a', '=', '=', '"', '|', ' ', 'w', 'i', 't', 'h', '"']
    (.expr ⟨"a", .eq, .string "| with", none⟩) (by decide)
    (.plain (by decide) (by decide) (by decide) <| .plain (by decide) (by decide) (by decide) <|
      .plain (by decide) (by decide) (by decide) <|
        @TopLevel.quoted _ _ '"' ['|', ' ', 'w', 'i', 't', 'h'] [] rfl
          (quotedBy_plain (by decide)) (.nil _))

/-- The quoted pipe stays in the first of two stages. -/
theorem nqlParse_quotedPipe :
    @nqlParse literalPcre2 "a==\"| with\" | *".toList =
      some (.pipeline [.filter (.expr ⟨"a", .eq, .string "| with", none⟩),
        .show ⟨[], true, none⟩]) := by
  let _ := literalPcre2
  exact (@nqlParse_text literalPcre2).1 ⟨false, true⟩
    ⟨.filter quotedFilter (by decide), [.showAll none]⟩

end NqlParser

end Nblex
