import Nblex.Parsers.Proofs.NqlWords

/-!
# The nQL parser on pointers

On the pointers into a text without a NUL the parser has the result that it has on the rests of the
text: a query, or `NULL` and the message. So it ends, and reads no character outside of the text and
its NUL.
-/

namespace Nblex

namespace NqlReads

open NqlParser (Parsed)

variable {text rest : List Char} {pos start turns : Nat}

variable (terminated : nul ∉ text)
include terminated

/-! ## Aggregations -/

theorem closeWith_parses {α : Type} {message : String} (short : message.length ≤ 255) (value : α)
    (points : PointsAt text pos rest) (enough : text.length < turns) :
    Parses text pos (NqlParser.closeWith message value rest)
      (closeWith text turns message value ⟨pos, none⟩) := by
  obtain ⟨stop, tail, read, ran, behind, after⟩ | ⟨stop, tail, read, ran, -, -⟩ :=
    consumeChar_cases terminated ')' points enough (by decide)
  · rw [closeWith, ran, NqlParser.closeWith, read]
    exact ⟨stop, rfl, behind, after.le⟩
  · rw [closeWith, ran, NqlParser.closeWith, read]
    exact parses_fail short

theorem closeFunction_parses {message : String} (short : message.length ≤ 255) (func : AggFunc)
    (points : PointsAt text pos rest) (enough : text.length < turns) :
    Parses text pos (NqlParser.closeWith message func rest)
      (closeFunction text turns message func ⟨pos, none⟩) := by
  obtain ⟨pos', skipped, behind, after⟩ := skipWhitespace_points terminated points enough
  have closed := closeWith_parses terminated short func behind enough
  have twice : skipSpace (skipSpace rest) = skipSpace rest := List.dropWhile_idempotent isspace rest
  rw [NqlParser.closeWith, NqlParser.consumeChar, twice] at closed
  rw [closeFunction, skipped]
  exact closed.later after

theorem parsePercentile_parses (points : PointsAt text pos rest) (enough : text.length < turns) :
    Parses text pos (NqlParser.parsePercentile rest) (parsePercentile text turns ⟨pos, none⟩) := by
  refine (parseField_parses terminated (ofList_length_le (by simp)) points enough).andThen ?_
  intro field pos rest points _
  obtain ⟨comma, tail, read, ran, atNumber, after⟩ | ⟨stop, tail, read, ran, -, -⟩ :=
    consumeChar_cases terminated ',' points enough (by decide)
  · obtain ⟨number, skipped, behind, later⟩ := skipWhitespace_points terminated atNumber enough
    rw [ran, read, ok_bind]
    dsimp only
    rw [if_pos rfl, skipped, ok_bind, behind.string, ok_bind]
    by_cases noNumber : (strtodDouble (skipSpace tail)).2 = skipSpace tail
    · rw [if_pos noNumber, if_pos noNumber]
      exact parses_fail (ofList_length_le (by simp))
    · rw [if_neg noNumber, if_neg noNumber]
      have part := strtodDouble_suffix (skipSpace tail)
      have length := behind.length
      have shorter := part.length_le
      have passed : pos ≤ text.length - (strtodDouble (skipSpace tail)).2.length := by omega
      exact (closeFunction_parses terminated (ofList_length_le (by simp)) _ (behind.tail part)
        enough).later passed
  · rw [ran, read, ok_bind]
    exact parses_fail (ofList_length_le (by simp))

theorem parseAggFunction_parses (points : PointsAt text pos rest) (enough : text.length < turns) :
    Parses text pos (NqlParser.parseAggFunction rest)
      (parseAggFunction text turns ⟨pos, none⟩) := by
  obtain ⟨start, skipped, behind, after⟩ := skipWhitespace_points terminated points enough
  obtain ⟨scanned, atOpen⟩ := behind.scanWhile terminated NqlParser.isalpha turns
    (behind.suffix.length_le.trans_lt enough)
  have prefixed := List.takeWhile_prefix (l := skipSpace rest) NqlParser.isalpha
  have copied := behind.copy _ prefixed.length_le
  rw [← List.prefix_iff_eq_take.mp prefixed] at copied
  rw [parseAggFunction, skipped, ok_bind]
  dsimp only
  rw [scanned, ok_bind, Nat.add_sub_cancel_left, NqlParser.parseAggFunction]
  generalize (skipSpace rest).takeWhile NqlParser.isalpha = name at *
  have atStart : start + name.length = start ↔ name = [] := by
    rw [Nat.add_eq_left, List.length_eq_zero_iff]
  have passed : pos ≤ start + name.length := after.trans (Nat.le_add_right _ _)
  by_cases noName : name = []
  · rw [if_pos noName, if_pos (atStart.mpr noName)]
    exact parses_fail (ofList_length_le (by simp))
  rw [if_neg noName, if_neg (mt atStart.mp noName)]
  by_cases long : 32 ≤ name.length
  · rw [if_pos long, if_pos long]
    exact parses_fail (ofList_length_le (by simp))
  rw [if_neg long, if_neg long, copied, ok_bind]
  obtain ⟨first, tail, read, ran, behind, later⟩ | ⟨stop, tail, read, ran, -, -⟩ :=
    consumeChar_cases terminated '(' atOpen enough (by decide)
  · rw [ran, read, ok_bind]
    dsimp only
    rw [if_pos rfl, parseArguments]
    refine Parses.later ?_ (passed.trans later.le)
    have short : (String.ofList (name.map Char.toLower)).length < 32 := by
      rw [String.length_ofList, List.length_map]
      omega
    generalize String.ofList (name.map Char.toLower) = funcName at *
    by_cases count : funcName = "count"
    · rw [if_pos count, if_pos count]
      exact closeFunction_parses terminated (ofList_length_le (by simp)) _ behind enough
    rw [if_neg count, if_neg count]
    by_cases percentile : funcName = "percentile"
    · rw [if_pos percentile, if_pos percentile]
      exact parsePercentile_parses terminated behind enough
    rw [if_neg percentile, if_neg percentile]
    cases NqlParser.fieldFuncType funcName with
    | none =>
        refine parses_fail ?_
        rw [String.length_append, String.length_append]
        have front : "unknown aggregation function '".length ≤ 100 := ofList_length_le (by simp)
        have back : "'".length ≤ 100 := ofList_length_le (by simp)
        omega
    | some type =>
        refine (parseField_parses terminated (ofList_length_le (by simp)) behind enough).andThen ?_
        intro field pos rest points _
        exact closeFunction_parses terminated (ofList_length_le (by simp)) _ points enough
  · rw [ran, read, ok_bind]
    exact parses_fail (ofList_length_le (by simp))

/-- What one item does, the loop over items with commas between them does. -/
theorem commaLoop_parses {α : Type} {item : List Char → Parsed α}
    {item' : Parser → Except Fault (Option α × Parser)}
    (items : ∀ {pos : Nat} {rest : List Char}, PointsAt text pos rest →
      Parses text pos (item rest) (item' ⟨pos, none⟩))
    (enough : text.length < turns) (fuel : Nat) :
    ∀ {left pos : Nat} {rest : List Char}, PointsAt text pos rest → rest.length < fuel →
      rest.length < left →
      Parses text pos (NqlParser.commaLoop item fuel rest)
        (commaLoop text turns item' left ⟨pos, none⟩) := by
  induction fuel with
  | zero => exact fun _ short => absurd short (Nat.not_lt_zero _)
  | succ fuel ih =>
      intro left pos rest points short more
      obtain ⟨left, rfl⟩ := Nat.exists_eq_add_one_of_ne_zero (Nat.ne_zero_of_lt more)
      have length := points.length
      obtain ⟨first, tail, read, ran, behind, after⟩ | ⟨stop, tail, read, ran, behind, after⟩ :=
        consumeChar_cases terminated ',' points enough (by decide)
      · rw [commaLoop, ran, NqlParser.commaLoop, read]
        refine Parses.later ((items behind).andThen ?_) after.le
        intro value next rest' points' later
        have length' := points'.length
        refine (ih points' (by omega) (by omega)).andThen ?_
        intro values stop rest'' points'' _
        exact parses_ok (value :: values) points''
      · rw [commaLoop, ran, NqlParser.commaLoop, read]
        exact ⟨stop, rfl, behind, after⟩

theorem commaList_parses {α : Type} {first item : List Char → Parsed α}
    {first' item' : Parser → Except Fault (Option α × Parser)}
    (firsts : ∀ {pos : Nat} {rest : List Char}, PointsAt text pos rest →
      Parses text pos (first rest) (first' ⟨pos, none⟩))
    (items : ∀ {pos : Nat} {rest : List Char}, PointsAt text pos rest →
      Parses text pos (item rest) (item' ⟨pos, none⟩))
    (points : PointsAt text pos rest) (enough : text.length < turns) :
    Parses text pos
      (NqlParser.andThen (first rest) fun value rest =>
        NqlParser.andThen (NqlParser.commaLoop item (rest.length + 1) rest) fun values pos =>
          .ok (value :: values, pos))
      (commaList text turns first' item' ⟨pos, none⟩) := by
  refine (firsts points).andThen ?_
  intro value pos rest points _
  refine (commaLoop_parses terminated items enough _ points (Nat.lt_succ_self _)
    (points.suffix.length_le.trans_lt enough)).andThen ?_
  intro values stop rest' points' _
  exact parses_ok (value :: values) points'

theorem parseFunctions_parses (points : PointsAt text pos rest) (enough : text.length < turns) :
    Parses text pos (NqlParser.parseFunctions rest) (parseFunctions text turns ⟨pos, none⟩) := by
  have functions : ∀ {pos : Nat} {rest : List Char}, PointsAt text pos rest →
      Parses text pos (NqlParser.parseAggFunction rest)
        (parseAggFunction text turns ⟨pos, none⟩) :=
    fun points => parseAggFunction_parses terminated points enough
  obtain ⟨first, tail, read, ran, behind, after⟩ | ⟨first, tail, read, ran, behind, after⟩ :=
    consumeChar_cases terminated '(' points enough (by decide)
  · rw [parseFunctions, ran, NqlParser.parseFunctions, read]
    refine Parses.later ((commaList_parses terminated functions functions behind enough).andThen
      ?_) after.le
    intro funcs pos rest points _
    exact closeWith_parses terminated (ofList_length_le (by simp)) funcs points enough
  · rw [parseFunctions, ran, NqlParser.parseFunctions, read]
    exact ((commaList_parses terminated functions functions behind enough).passedOn).later after

theorem parseWindowSize_parses {name : String}
    (short : name.length ≤ 100) (points : PointsAt text pos rest) (enough : text.length < turns) :
    Parses text pos (NqlParser.parseWindowSize name rest)
      (parseWindowSize text turns name ⟨pos, none⟩) := by
  obtain ⟨first, tail, read, ran, behind, after⟩ | ⟨stop, tail, read, ran, -, -⟩ :=
    consumeChar_cases terminated '(' points enough (by decide)
  · rw [parseWindowSize, ran, NqlParser.parseWindowSize, read]
    exact (durationOrNull_parses terminated behind enough).later after.le
  · have front : "expected '(' after ".length ≤ 100 := ofList_length_le (by simp)
    rw [parseWindowSize, ran, NqlParser.parseWindowSize, read]
    refine parses_fail ?_
    rw [String.length_append]
    omega

theorem parseSlide_parses (points : PointsAt text pos rest) (enough : text.length < turns) :
    Parses text pos (NqlParser.parseSlide rest) (parseSlide text turns ⟨pos, none⟩) := by
  obtain ⟨first, tail, read, ran, behind, after⟩ | ⟨stop, tail, read, ran, -, -⟩ :=
    consumeChar_cases terminated ',' points enough (by decide)
  · rw [parseSlide, ran, NqlParser.parseSlide, read]
    exact (durationOrNull_parses terminated behind enough).later after.le
  · rw [parseSlide, ran, NqlParser.parseSlide, read]
    exact parses_fail (ofList_length_le (by simp))

theorem parseWindow_parses (points : PointsAt text pos rest) (enough : text.length < turns) :
    Parses text pos (NqlParser.parseWindow rest) (parseWindow text turns ⟨pos, none⟩) := by
  rw [parseWindow, NqlParser.parseWindow]
  obtain ⟨first, tail, read, ran, behind, after⟩ | ⟨pos', rest', read, ran, points', after'⟩ :=
    matchKeyword_cases terminated "tumbling" (by simp [isComparable, nul]) points enough
  · rw [ran, read]
    refine Parses.later ?_ after.le
    refine (parseWindowSize_parses terminated (ofList_length_le (by simp)) behind enough).andThen ?_
    intro size pos rest points _
    exact closeWith_parses terminated (ofList_length_le (by simp)) _ points enough
  rw [ran, read, ok_bind]
  dsimp only
  rw [if_neg Bool.false_ne_true]
  refine Parses.later ?_ after'
  obtain ⟨first, tail, read, ran, behind, after⟩ | ⟨pos, rest, read, ran, points, after'⟩ :=
    matchKeyword_cases terminated "sliding" (by simp [isComparable, nul]) points' enough
  · rw [ran, read]
    refine Parses.later ?_ after.le
    refine (parseWindowSize_parses terminated (ofList_length_le (by simp)) behind enough).andThen ?_
    intro size pos rest points _
    refine (parseSlide_parses terminated points enough).andThen ?_
    intro slide pos rest points _
    exact closeWith_parses terminated (ofList_length_le (by simp)) _ points enough
  rw [ran, read, ok_bind]
  dsimp only
  rw [if_neg Bool.false_ne_true]
  refine Parses.later ?_ after'
  obtain ⟨first, tail, read, ran, behind, after⟩ | ⟨pos, rest, read, ran, points, after'⟩ :=
    matchKeyword_cases terminated "session" (by simp [isComparable, nul]) points enough
  · rw [ran, read]
    refine Parses.later ?_ after.le
    refine (parseWindowSize_parses terminated (ofList_length_le (by simp)) behind enough).andThen ?_
    intro timeout pos rest points _
    exact closeWith_parses terminated (ofList_length_le (by simp)) _ points enough
  rw [ran, read, ok_bind]
  dsimp only
  rw [if_neg Bool.false_ne_true]
  refine Parses.later ?_ after'
  refine (durationOrNull_parses terminated points enough).andThen ?_
  intro size pos rest points _
  exact parses_ok _ points

/-! ## Statements -/

theorem parseClause_parses {α : Type} {keyword : String} (word : isComparable keyword.toList)
    {clause : List Char → Parsed α} {clause' : Parser → Except Fault (Option α × Parser)}
    (clauses : ∀ {pos : Nat} {rest : List Char}, PointsAt text pos rest →
      Parses text pos (clause rest) (clause' ⟨pos, none⟩)) (without : α)
    (points : PointsAt text pos rest) (enough : text.length < turns) :
    Parses text pos (NqlParser.parseClause keyword clause without rest)
      (parseClause text turns keyword clause' without ⟨pos, none⟩) := by
  obtain ⟨first, tail, read, ran, behind, after⟩ | ⟨stop, tail, read, ran, behind, after⟩ :=
    matchKeyword_cases terminated keyword word points enough
  · rw [parseClause, ran, NqlParser.parseClause, read]
    exact (clauses behind).later after.le
  · rw [parseClause, ran, NqlParser.parseClause, read]
    exact (parses_ok without behind).later after

variable [Pcre2]

theorem parseWhere_parses {keywords : List (List Char)}
    (words : ∀ keyword ∈ keywords, isComparable keyword = true) (points : PointsAt text pos rest)
    (enough : text.length < turns) :
    Parses text pos (NqlParser.parseWhere text keywords rest)
      (parseWhere text turns keywords ⟨pos, none⟩) := by
  refine parseClause_parses terminated (by simp [isComparable, nul]) ?_ none points enough
  intro pos rest points
  refine (parseFilterExpr_parses terminated words true points enough).andThen ?_
  intro filter pos rest points _
  exact parses_ok (some filter) points

/-- A statement form: its result, or `NULL` without a message, with the pointer where it was. -/
def FormParses (text : List Char) (start : Nat) (read : Option (Parsed Stage))
    (run : Except Fault (Option Stage × Parser)) : Prop :=
  match read with
  | none => run = .ok (none, ⟨start, none⟩)
  | some read => Parses text start read run

theorem parseCorrelate_parses (points : PointsAt text pos rest) (enough : text.length < turns) :
    FormParses text pos (NqlParser.parseCorrelate text rest)
      (parseCorrelate text turns ⟨pos, none⟩) := by
  obtain ⟨first, tail, read, ran, behind, after⟩ | ⟨stop, tail, read, ran, -, -⟩ :=
    matchKeyword_cases terminated "correlate" (by simp [isComparable, nul]) points enough
  · rw [parseCorrelate, ran, NqlParser.parseCorrelate, read]
    refine Parses.later ?_ after.le
    refine (parseFilterExpr_parses terminated (by simp [isComparable, nul]) true behind
      enough).andThen ?_
    intro left pos rest points _
    obtain ⟨first, tail, read, ran, behind, after⟩ | ⟨stop, tail, read, ran, -, -⟩ :=
      matchKeyword_cases terminated "with" (by simp [isComparable, nul]) points enough
    · rw [ran, read]
      refine Parses.later ?_ after.le
      refine (parseFilterExpr_parses terminated (by simp [isComparable, nul]) true behind
        enough).andThen ?_
      intro right pos rest points _
      refine (parseClause_parses terminated (by simp [isComparable, nul])
        (fun points => durationOrNull_parses terminated points enough) 0 points enough).andThen ?_
      intro within pos rest points _
      exact parses_ok _ points
    · rw [ran, read]
      exact parses_fail (ofList_length_le (by simp))
  · rw [parseCorrelate, ran, NqlParser.parseCorrelate, read]
    exact rfl

theorem parseAggregate_parses (points : PointsAt text pos rest) (enough : text.length < turns) :
    FormParses text pos (NqlParser.parseAggregate text rest)
      (parseAggregate text turns ⟨pos, none⟩) := by
  obtain ⟨first, tail, read, ran, behind, after⟩ | ⟨stop, tail, read, ran, -, -⟩ :=
    matchKeyword_cases terminated "aggregate" (by simp [isComparable, nul]) points enough
  · have fields : ∀ {pos : Nat} {rest : List Char}, PointsAt text pos rest →
        Parses text pos (NqlParser.parseField "expected field after 'by'" rest)
          (parseField text turns "expected field after 'by'" ⟨pos, none⟩) :=
      fun points => parseField_parses terminated (ofList_length_le (by simp)) points enough
    rw [parseAggregate, ran, NqlParser.parseAggregate, read]
    refine Parses.later ?_ after.le
    refine (parseFunctions_parses terminated behind enough).andThen ?_
    intro funcs pos rest points _
    refine (parseClause_parses terminated (by simp [isComparable, nul])
      (fun points => commaList_parses terminated fields fields points enough) [] points
        enough).andThen ?_
    intro fields pos rest points _
    refine (parseWhere_parses terminated (by simp [isComparable, nul]) points enough).andThen ?_
    intro filter pos rest points _
    refine (parseClause_parses terminated (by simp [isComparable, nul])
      (fun points => parseWindow_parses terminated points enough) _ points enough).andThen ?_
    intro window pos rest points _
    exact parses_ok _ points
  · rw [parseAggregate, ran, NqlParser.parseAggregate, read]
    exact rfl

theorem parseShow_parses (points : PointsAt text pos rest) (enough : text.length < turns) :
    FormParses text pos (NqlParser.parseShow text rest) (parseShow text turns ⟨pos, none⟩) := by
  obtain ⟨first, tail, read, ran, behind, after⟩ | ⟨stop, tail, read, ran, -, -⟩ :=
    matchKeyword_cases terminated "show" (by simp [isComparable, nul]) points enough
  · rw [parseShow, ran, NqlParser.parseShow, read, ok_bind]
    dsimp only
    rw [if_pos rfl]
    refine Parses.later ?_ after.le
    obtain ⟨star, tail', read, ran, points, after⟩ | ⟨pos', tail', read, ran, points, after⟩ :=
      consumeChar_cases terminated '*' behind enough (by decide)
    · rw [ran, read]
      refine Parses.later ?_ after.le
      refine (parseWhere_parses terminated (by simp [isComparable, nul]) points enough).andThen ?_
      intro filter pos rest points _
      exact parses_ok _ points
    · have fields : ∀ {message : String}, message.length ≤ 255 → ∀ {pos : Nat} {rest : List Char},
          PointsAt text pos rest → Parses text pos (NqlParser.parseField message rest)
            (parseField text turns message ⟨pos, none⟩) :=
        fun short _ _ points => parseField_parses terminated short points enough
      rw [ran, read]
      refine Parses.later ?_ after
      refine (commaList_parses terminated (fields (ofList_length_le (by simp)))
        (fields (ofList_length_le (by simp))) points
        enough).andThen ?_
      intro fields pos rest points _
      refine (parseWhere_parses terminated (by simp [isComparable, nul]) points enough).andThen ?_
      intro filter pos rest points _
      exact parses_ok _ points
  · rw [parseShow, ran, NqlParser.parseShow, read]
    exact rfl

theorem parseSelectAll_parses (points : PointsAt text pos rest) (enough : text.length < turns) :
    FormParses text pos (NqlParser.parseSelectAll text rest)
      (parseSelectAll text turns ⟨pos, none⟩) := by
  obtain ⟨star, tail, read, ran, behind, after⟩ | ⟨stop, tail, read, ran, -, -⟩ :=
    consumeChar_cases terminated '*' points enough (by decide)
  · rw [parseSelectAll, ran, NqlParser.parseSelectAll, read]
    refine Parses.later ?_ after.le
    refine (parseWhere_parses terminated (by simp [isComparable, nul]) behind enough).andThen ?_
    intro filter pos rest points _
    exact parses_ok _ points
  · rw [parseSelectAll, ran, NqlParser.parseSelectAll, read]
    exact rfl

theorem parseFilterQuery_parses (points : PointsAt text pos rest) (enough : text.length < turns) :
    Parses text pos (NqlParser.parseFilterQuery text rest)
      (parseFilterQuery text turns ⟨pos, none⟩) := by
  refine (parseFilterExpr_parses terminated (by simp [isComparable, nul]) true points
    enough).andThen ?_
  intro filter pos rest points _
  exact parses_ok _ points

/-! ## Queries -/

omit terminated [Pcre2] in
/-- A form that has returned `NULL` without a message leaves the place to the next. -/
theorem orTry_parses {form next : Parser → Except Fault (Option Stage × Parser)}
    {read : Option (Parsed Stage)} {otherwise : Parsed Stage}
    (tried : FormParses text pos read (form ⟨pos, none⟩))
    (other : Parses text pos otherwise (next ⟨pos, none⟩)) :
    Parses text pos (read.getD otherwise) (orTry form next ⟨pos, none⟩) := by
  rw [orTry]
  cases read with
  | none =>
      have ran : form ⟨pos, none⟩ = .ok (none, ⟨pos, none⟩) := tried
      rw [ran]
      exact other
  | some read =>
      cases read with
      | error message =>
          obtain ⟨stop, ran⟩ := tried
          rw [ran]
          exact ⟨stop, rfl⟩
      | ok result =>
          obtain ⟨stop, ran, points, after⟩ := tried
          rw [ran]
          exact ⟨stop, rfl, points, after⟩

omit terminated in
theorem parseSingleQuery_getD (input pos : List Char) :
    NqlParser.parseSingleQuery input pos =
      (NqlParser.parseCorrelate input pos).getD ((NqlParser.parseAggregate input pos).getD
        ((NqlParser.parseShow input pos).getD ((NqlParser.parseSelectAll input pos).getD
          (NqlParser.parseFilterQuery input pos)))) := by
  rw [NqlParser.parseSingleQuery]
  cases NqlParser.parseCorrelate input pos with
  | some query => rfl
  | none =>
      cases NqlParser.parseAggregate input pos with
      | some query => rfl
      | none =>
          cases NqlParser.parseShow input pos with
          | some query => rfl
          | none => cases NqlParser.parseSelectAll input pos <;> rfl

theorem parseSingleQuery_parses (points : PointsAt text pos rest) (enough : text.length < turns) :
    Parses text pos (NqlParser.parseSingleQuery text rest)
      (parseSingleQuery text turns ⟨pos, none⟩) := by
  rw [parseSingleQuery_getD, parseSingleQuery]
  apply orTry_parses (parseCorrelate_parses terminated points enough)
  apply orTry_parses (parseAggregate_parses terminated points enough)
  apply orTry_parses (parseShow_parses terminated points enough)
  apply orTry_parses (parseSelectAll_parses terminated points enough)
  exact parseFilterQuery_parses terminated points enough

theorem parseStages_parses (enough : text.length < turns) (fuel : Nat) :
    ∀ {left pos : Nat} {rest : List Char}, PointsAt text pos rest → rest.length < fuel →
      rest.length < left →
      Parses text pos (NqlParser.parseStages text fuel rest)
        (parseStages text turns left ⟨pos, none⟩) := by
  induction fuel with
  | zero => exact fun _ short => absurd short (Nat.not_lt_zero _)
  | succ fuel ih =>
      intro left pos rest points short more
      obtain ⟨left, rfl⟩ := Nat.exists_eq_add_one_of_ne_zero (Nat.ne_zero_of_lt more)
      obtain ⟨start, skipped, behind, after⟩ := skipWhitespace_points terminated points enough
      have shorter := skipSpace_length_le rest
      rw [parseStages, skipped, ok_bind, behind.read, ok_bind, NqlParser.parseStages]
      cases place : skipSpace rest with
      | nil => exact ⟨start, rfl, place ▸ behind, after⟩
      | cons c tail =>
          rw [place] at behind shorter
          rw [List.length_cons] at shorter
          rw [List.headD_cons]
          by_cases pipe : c = '|'
          · subst pipe
            rw [if_pos rfl]
            refine Parses.later ?_ (after.trans (Nat.le_succ start))
            refine (parseSingleQuery_parses terminated behind.next enough).andThen ?_
            intro stage next rest' points' later
            have length := behind.next.length
            have length' := points'.length
            refine (ih points' (by omega) (by omega)).andThen ?_
            intro stages stop rest'' points'' _
            exact parses_ok (stage :: stages) points''
          · rw [if_neg pipe]
            split
            · next same => exact absurd (List.cons.inj same).1 pipe
            · exact ⟨start, rfl, behind, after⟩

theorem parsePipeline_parses (points : PointsAt text pos rest) (enough : text.length < turns) :
    Parses text pos (NqlParser.parsePipeline text rest)
      (parsePipeline text turns ⟨pos, none⟩) := by
  refine (parseSingleQuery_parses terminated points enough).andThen ?_
  intro first pos rest points _
  have fits := points.suffix.length_le
  refine (parseStages_parses terminated enough _ points (Nat.lt_succ_of_le fits)
    (fits.trans_lt enough)).andThen ?_
  intro stages stop rest' points' _
  exact parses_ok _ points'

/-- The outcome of a run of `nql_parse_ex` that belongs to a result: the query and no message, with
    nothing but blanks behind the place where `parse_entry` has stopped, or `NULL` and the
    message. -/
def Outcome (text : List Char) (turns : Nat) : Except String NqlQuery → Prop
  | .ok query =>
      nqlParseEx text turns = .ok (some query, ⟨text.length, none⟩) ∧
        ∃ stop ≤ text.length, parseEntry text turns ⟨0, none⟩ = .ok (some query, ⟨stop, none⟩) ∧
          ∀ c ∈ text.drop stop, isspace c = true
  | .error message => ∃ stop, nqlParseEx text turns = .ok (none, ⟨stop, some message⟩)

/-- On pointers `nql_parse_ex` has the result that the text has. -/
theorem nqlParseEx_runs (enough : text.length < turns) :
    Outcome text turns (Nblex.nqlParseEx text) := by
  obtain ⟨start, skipped, behind, -⟩ :=
    skipWhitespace_points terminated (pointsAt_start text) enough
  have entry : parseEntry text turns ⟨0, none⟩ =
      if skipSpace text = [] then fail "empty query" ⟨start, none⟩
      else parsePipeline text turns ⟨start, none⟩ := by
    rw [parseEntry, skipped, ok_bind, behind.read, ok_bind]
    simp only [behind.headD_eq_nul_iff terminated]
  rw [Nblex.nqlParseEx]
  by_cases blank : skipSpace text = []
  · rw [if_pos blank] at entry ⊢
    refine ⟨start, ?_⟩
    rw [nqlParseEx, entry, fail, parserSetError_short (ofList_length_le (by simp))]
    rfl
  rw [if_neg blank] at entry ⊢
  have pipeline := parsePipeline_parses terminated behind enough
  cases read : NqlParser.parsePipeline text (skipSpace text) with
  | error message =>
      rw [read] at pipeline
      obtain ⟨stop, ran⟩ := pipeline
      refine ⟨stop, ?_⟩
      rw [nqlParseEx, entry, ran]
      rfl
  | ok result =>
      obtain ⟨query, rest⟩ := result
      rw [read] at pipeline
      obtain ⟨stop, ran, points, -⟩ := pipeline
      obtain ⟨last, skippedLast, atLast, -⟩ := skipWhitespace_points terminated points enough
      have result : nqlParseEx text turns =
          if skipSpace rest ≠ [] then fail "unexpected trailing input" ⟨last, none⟩
          else .ok (some query, ⟨last, none⟩) := by
        rw [nqlParseEx, entry, ran, ok_bind]
        dsimp only
        rw [if_pos ⟨rfl, rfl⟩, skippedLast, ok_bind, atLast.read, ok_bind]
        simp only [ne_eq, atLast.headD_eq_nul_iff terminated, pure_eq_ok]
      dsimp only
      by_cases consumed : skipSpace rest = []
      · rw [if_neg (not_not.mpr consumed)] at result
        rw [consumed] at atLast
        have length := atLast.length
        rw [List.length_nil, Nat.add_zero] at length
        rw [if_pos consumed]
        refine ⟨length ▸ result, stop, points.inside, entry.trans ran, ?_⟩
        rw [points.drop]
        simpa [skipSpace] using consumed
      · rw [if_pos consumed] at result
        rw [if_neg consumed]
        refine ⟨last, ?_⟩
        rw [result, fail, parserSetError_short (ofList_length_le (by simp))]
        rfl

/-- Every text has a query or a message, and never both; with a query nothing but blanks is left
    behind the place where `parse_entry` has stopped, and these are skipped. -/
theorem nqlParseEx_queryOrMessage (enough : text.length < turns) :
    ∃ query parser, nqlParseEx text turns = .ok (query, parser) ∧
      (query.isSome = true ↔ parser.errorMsg = none) ∧
      (query.isSome = true → parser.pos = text.length ∧
        ∃ stop ≤ text.length, parseEntry text turns ⟨0, none⟩ = .ok (query, ⟨stop, none⟩) ∧
          ∀ c ∈ text.drop stop, isspace c = true) := by
  have outcome := nqlParseEx_runs terminated enough
  cases result : Nblex.nqlParseEx text with
  | ok query =>
      rw [result] at outcome
      obtain ⟨ran, entry⟩ := outcome
      exact ⟨some query, ⟨text.length, none⟩, ran, iff_of_true rfl rfl, fun _ => ⟨rfl, entry⟩⟩
  | error message =>
      rw [result] at outcome
      obtain ⟨stop, ran⟩ := outcome
      exact ⟨none, ⟨stop, some message⟩, ran,
        iff_of_false Bool.false_ne_true (Option.some_ne_none message),
        fun isQuery => absurd isQuery Bool.false_ne_true⟩

omit terminated [Pcre2] in
theorem nqlParseEx_queryOrMessage_show :
    ∃ query parser, @nqlParseEx "show a  ".toList 9 literalPcre2 = .ok (query, parser) ∧
      (query.isSome = true ↔ parser.errorMsg = none) ∧
      (query.isSome = true → parser.pos = 8 ∧
        ∃ stop ≤ 8, @parseEntry "show a  ".toList 9 literalPcre2 ⟨0, none⟩ =
            .ok (query, ⟨stop, none⟩) ∧
          ∀ c ∈ "show a  ".toList.drop stop, isspace c = true) :=
  @nqlParseEx_queryOrMessage "show a  ".toList 9 (by decide) literalPcre2 (by decide)

/-- The parser ends and reads nothing outside of the text and its NUL, and so does the filter
    parser. -/
theorem parsers_readInside (enough : text.length < turns) (fault : Fault) :
    nqlParseEx text turns ≠ .error fault ∧
      FilterReads.nblexFilterNew text turns ≠ .error fault := by
  have outcome := nqlParseEx_runs terminated enough
  constructor
  · cases result : Nblex.nqlParseEx text with
    | ok query =>
        rw [result] at outcome
        rw [outcome.1]
        exact nofun
    | error message =>
        rw [result] at outcome
        obtain ⟨stop, ran⟩ := outcome
        rw [ran]
        exact nofun
  · rw [FilterReads.nblexFilterNew_runs terminated enough]
    exact nofun

omit terminated [Pcre2] in
/-- A text that ends behind a backslash inside of a quoted literal. -/
theorem parsers_readInside_openLiteral :
    @nqlParseEx ("show a where (b == \"".toList ++ ['\\']) 22 literalPcre2 ≠
        .error (.outside 22) ∧
      @FilterReads.nblexFilterNew ("show a where (b == \"".toList ++ ['\\']) 22 literalPcre2 ≠
        .error (.outside 22) :=
  @parsers_readInside ("show a where (b == \"".toList ++ ['\\']) 22 (by decide) literalPcre2
    (by decide) (.outside 22)

end NqlReads

end Nblex
