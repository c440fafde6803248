import Nblex.Parsers.Proofs.NqlWords

/-!
# Accepted queries

Whatever the text, a query that the parser accepts is well formed: its names and filters are read
from pieces of the text, an aggregation has a function, a function has a field just in case it
takes one, a window has the durations of its kind and no others, and a pipeline has two stages.
-/

namespace Nblex

namespace NqlParser

/-! ## What a parser gives -/

section Gives

/-- Whatever is read from a rest of the text has the property, and a rest of that is left. -/
def Gives {α : Type} (text : List Char) (P : α → Prop) (parse : List Char → Parsed α) : Prop :=
  ∀ pos, pos <:+ text → ∀ value rest, parse pos = .ok (value, rest) → P value ∧ rest <:+ pos

variable {α β : Type} {text : List Char} {P : α → Prop} {Q : β → Prop}

theorem Gives.andThen {first : List Char → Parsed α} {next : α → List Char → Parsed β}
    (gives : Gives text P first) (gives' : ∀ value, P value → Gives text Q (next value)) :
    Gives text Q fun pos => andThen (first pos) next := by
  intro pos suffix value rest read
  dsimp only at read
  cases begun : first pos with
  | error message =>
      rw [begun] at read
      cases read
  | ok given =>
      obtain ⟨here, between⟩ := given
      rw [begun] at read
      obtain ⟨holds, shorter⟩ := gives pos suffix here between begun
      obtain ⟨holds', shorter'⟩ :=
        gives' here holds between (shorter.trans suffix) value rest read
      exact ⟨holds', shorter'.trans shorter⟩

theorem Gives.ok {value : α} (holds : P value) : Gives text P fun pos => .ok (value, pos) := by
  intro pos suffix value' rest read
  obtain ⟨rfl, rfl⟩ := Prod.mk.inj (Except.ok.inj read)
  exact ⟨holds, List.suffix_refl _⟩

theorem Gives.error (message : String) : Gives text P fun _ => .error message := by
  intro pos suffix value rest read
  cases read

theorem Gives.mono {P' : α → Prop} {parse : List Char → Parsed α} (gives : Gives text P parse)
    (weaker : ∀ value, P value → P' value) : Gives text P' parse := by
  intro pos suffix value rest read
  obtain ⟨holds, shorter⟩ := gives pos suffix value rest read
  exact ⟨weaker value holds, shorter⟩

theorem consumeChar_suffix (expected : Char) (pos : List Char) :
    (consumeChar expected pos).2 <:+ pos := by
  have skipped := skipSpace_suffix pos
  rw [consumeChar]
  cases start : skipSpace pos with
  | nil => exact List.nil_suffix
  | cons c rest =>
      rw [start] at skipped
      dsimp only
      split_ifs
      · exact (List.suffix_cons c rest).trans skipped
      · exact skipped

theorem matchKeyword_suffix (keyword pos : List Char) : (matchKeyword keyword pos).2 <:+ pos := by
  rw [matchKeyword]
  split_ifs
  · exact (List.drop_suffix _ _).trans (skipSpace_suffix pos)
  · exact skipSpace_suffix pos

/-- A parser that branches on a flag that comes with a rest of the position. -/
theorem Gives.branch {parse yes no : List Char → Parsed α}
    {flag : List Char → Bool × List Char} (skips : ∀ pos, (flag pos).2 <:+ pos)
    (ifYes : ∀ pos later, flag pos = (true, later) → parse pos = yes later)
    (ifNo : ∀ pos later, flag pos = (false, later) → parse pos = no later)
    (onYes : Gives text P yes) (onNo : Gives text P no) : Gives text P parse := by
  intro pos suffix value rest read
  have later := skips pos
  cases here : flag pos with
  | mk found between =>
      rw [here] at later
      cases found with
      | true =>
          rw [ifYes pos between here] at read
          obtain ⟨holds, shorter⟩ := onYes between (later.trans suffix) value rest read
          exact ⟨holds, shorter.trans later⟩
      | false =>
          rw [ifNo pos between here] at read
          obtain ⟨holds, shorter⟩ := onNo between (later.trans suffix) value rest read
          exact ⟨holds, shorter.trans later⟩

theorem closeWith_gives (message : String) {value : α} (holds : P value) :
    Gives text P (closeWith message value) :=
  Gives.branch (consumeChar_suffix ')') (fun pos later here => by rw [closeWith, here])
    (fun pos later here => by rw [closeWith, here]) (Gives.ok holds) (Gives.error message)

theorem parseClause_gives (keyword : String) {clause : List Char → Parsed α} {without : α}
    (gives : Gives text P clause) (holds : P without) :
    Gives text P (parseClause keyword clause without) :=
  Gives.branch (matchKeyword_suffix keyword.toList)
    (fun pos later here => by rw [parseClause, here])
    (fun pos later here => by rw [parseClause, here]) gives (Gives.ok holds)

/-- A parser of a statement that a keyword or a character opens; without it nothing is given. -/
theorem Gives.opened {parse : List Char → Option (Parsed α)} {yes : List Char → Parsed α}
    {flag : List Char → Bool × List Char} (skips : ∀ pos, (flag pos).2 <:+ pos)
    (ifYes : ∀ pos later, flag pos = (true, later) → parse pos = some (yes later))
    (ifNo : ∀ pos later, flag pos = (false, later) → parse pos = none)
    (onYes : Gives text P yes) {otherwise : List Char → Parsed α} (onNo : Gives text P otherwise) :
    Gives text P fun pos => (parse pos).getD (otherwise pos) := by
  intro pos suffix value rest read
  have later := skips pos
  cases here : flag pos with
  | mk found between =>
      rw [here] at later
      cases found with
      | true =>
          dsimp only at read
          rw [ifYes pos between here] at read
          obtain ⟨holds, shorter⟩ := onYes between (later.trans suffix) value rest read
          exact ⟨holds, shorter.trans later⟩
      | false =>
          dsimp only at read
          rw [ifNo pos between here] at read
          exact onNo pos suffix value rest read

/-- A list of items, each of which is given. -/
theorem commaLoop_gives {item : List Char → Parsed α} (gives : Gives text P item) (fuel : Nat) :
    Gives text (fun items => ∀ value ∈ items, P value) (commaLoop item fuel) := by
  induction fuel with
  | zero => exact Gives.ok fun _ => List.not_mem_nil.elim
  | succ fuel ih =>
      refine Gives.branch (consumeChar_suffix ',') (fun pos later here => by rw [commaLoop, here])
        (fun pos later here => by rw [commaLoop, here]) ?_
        (Gives.ok fun _ => List.not_mem_nil.elim)
      refine gives.andThen fun first isFirst => ?_
      exact ih.andThen fun rest isRest => Gives.ok (List.forall_mem_cons.mpr ⟨isFirst, isRest⟩)

theorem commaList_gives {item : List Char → Parsed α} (gives : Gives text P item) :
    Gives text (fun items => items ≠ [] ∧ ∀ value ∈ items, P value) (commaList item) := by
  refine gives.andThen fun first isFirst => ?_
  have loop : Gives text (fun items => ∀ value ∈ items, P value) fun rest =>
      commaLoop item (rest.length + 1) rest :=
    fun pos => commaLoop_gives gives (pos.length + 1) pos
  exact loop.andThen fun items each =>
    Gives.ok ⟨List.cons_ne_nil first items, List.forall_mem_cons.mpr ⟨isFirst, each⟩⟩

end Gives

/-! ## Well-formed queries -/

/-- A name that is a piece of the text. -/
structure NameIn (text : List Char) (name : String) : Prop where
  inText : name.toList <:+: text
  start : ∃ c ∈ name.toList.head?, isalpha c || c = '_'
  chars : ∀ c ∈ name.toList, isFieldChar c = true

/-- A function has a field unless it is a count, and a percentile only if it is one. -/
structure FuncIn (text : List Char) (func : AggFunc) : Prop where
  count : func.type = .count ↔ func.field = none
  field : ∀ name ∈ func.field, NameIn text name
  percentile : func.type ≠ .percentile → func.percentile = 0

/-- A window has the durations of its kind, in a `uint64_t`. -/
def IsWindow (window : Window) : Prop :=
  window.sizeMs < 2 ^ 64 ∧ window.slideMs < 2 ^ 64 ∧ window.timeoutMs < 2 ^ 64 ∧
    match window.type with
    | .none => window.sizeMs = 0 ∧ window.slideMs = 0 ∧ window.timeoutMs = 0
    | .tumbling => window.slideMs = 0 ∧ window.timeoutMs = 0
    | .sliding => window.timeoutMs = 0
    | .session => window.sizeMs = 0 ∧ window.slideMs = 0

section Query

variable [Pcre2] (text : List Char)

/-- The filter of a piece of the text. -/
def FilterIn (filter : FilterNode) : Prop :=
  ∃ piece, piece <:+: text ∧ nblexFilterNew piece = some filter

/-- A well-formed stage. -/
def StageIn : Stage → Prop
  | .filter f => FilterIn text f
  | .correlate c =>
      FilterIn text c.leftFilter ∧ FilterIn text c.rightFilter ∧ 0 < c.withinMs ∧
        c.withinMs < 2 ^ 64
  | .aggregate a =>
      a.funcs ≠ [] ∧ (∀ func ∈ a.funcs, FuncIn text func) ∧
        (∀ name ∈ a.groupByFields, NameIn text name) ∧
        (∀ filter ∈ a.whereFilter, FilterIn text filter) ∧ IsWindow a.window
  | .show s =>
      (s.selectAll = true ↔ s.fields = []) ∧ (∀ name ∈ s.fields, NameIn text name) ∧
        ∀ filter ∈ s.whereFilter, FilterIn text filter

/-- A well-formed query. -/
def QueryIn : NqlQuery → Prop
  | .single stage => StageIn text stage
  | .pipeline stages => 2 ≤ stages.length ∧ ∀ stage ∈ stages, StageIn text stage

variable {text}

/-! ## Names and numbers -/

omit [Pcre2] in
theorem parseField_gives (message : String) : Gives text (NameIn text) (parseField message) := by
  intro pos suffix name rest read
  have skipped := skipSpace_suffix pos
  rw [parseField, parseIdentifier] at read
  cases start : skipSpace pos with
  | nil =>
      rw [start] at read
      cases read
  | cons c tail =>
      rw [start] at read skipped
      dsimp only at read
      by_cases named : (isalpha c || decide (c = '_')) = true
      · rw [if_pos named] at read
        obtain ⟨rfl, rfl⟩ := Prod.mk.inj (Except.ok.inj read)
        refine ⟨⟨?_, ?_, ?_⟩, (List.dropWhile_suffix _).trans skipped⟩
        · rw [String.toList_ofList]
          exact (List.takeWhile_prefix _).isInfix.trans (skipped.trans suffix).isInfix
        · have isField : isFieldChar c = true := by
            simp only [isalpha, Bool.or_eq_true, decide_eq_true_eq] at named
            rcases named with letter | rfl
            · simp [isFieldChar, isalnum, Char.isAlphanum, letter]
            · decide
          rw [String.toList_ofList, List.takeWhile_cons_of_pos isField]
          exact ⟨c, rfl, named⟩
        · rw [String.toList_ofList]
          exact fun c member => List.mem_takeWhile_imp member
      · rw [if_neg named] at read
        cases read

omit [Pcre2] in
theorem parseDuration_gives : Gives text (· < 2 ^ 64) parseDuration := by
  intro pos suffix value rest read
  rw [parseDuration] at read
  cases number : strtoull (skipSpace pos) with
  | none =>
      rw [number] at read
      cases read
  | some numeral =>
      obtain ⟨n, tail⟩ := numeral
      have behind : skipSpace tail <:+ pos := (skipSpace_suffix tail).trans
        ((NqlReads.strtoull_suffix number).trans (skipSpace_suffix pos))
      have word : ∀ factor, u64Mul n factor < 2 ^ 64 := fun factor => Nat.mod_lt _ (by decide)
      have unit : ∀ factor length,
          (Except.ok (u64Mul n factor, (skipSpace tail).drop length) : Parsed Nat) =
            .ok (value, rest) → value < 2 ^ 64 ∧ rest <:+ pos := by
        intro factor length same
        obtain ⟨rfl, rfl⟩ := Prod.mk.inj (Except.ok.inj same)
        exact ⟨word factor, (List.drop_suffix _ _).trans behind⟩
      rw [number] at read
      dsimp only at read
      split_ifs at read
      · exact unit _ _ read
      · exact unit _ _ read
      · exact unit _ _ read
      · exact unit _ _ read

/-! ## Functions and windows -/

omit [Pcre2] in
theorem fieldFuncType_cases {name : String} {type : AggFuncType}
    (known : fieldFuncType name = some type) : type ≠ .count ∧ type ≠ .percentile := by
  unfold fieldFuncType at known
  split_ifs at known
  all_goals
    obtain rfl := Option.some.inj known
    decide

omit [Pcre2] in
theorem parsePercentile_gives : Gives text (FuncIn text) parsePercentile := by
  refine (parseField_gives _).andThen fun field isField => ?_
  refine Gives.branch (consumeChar_suffix ',') (fun pos later here => by rw [here])
    (fun pos later here => by rw [here]) ?_ (Gives.error _)
  intro pos suffix func rest read
  dsimp only at read
  split_ifs at read
  have holds : FuncIn text ⟨.percentile, some field, (strtodDouble (skipSpace pos)).1⟩ :=
    ⟨by simp, fun name same => Option.some.inj same ▸ isField, fun other => absurd rfl other⟩
  have tail : (strtodDouble (skipSpace pos)).2 <:+ pos :=
    (strtodDouble_suffix (skipSpace pos)).trans (skipSpace_suffix pos)
  obtain ⟨isFunc, shorter⟩ := closeWith_gives _ holds _ (tail.trans suffix) func rest read
  exact ⟨isFunc, shorter.trans tail⟩

omit [Pcre2] in
theorem parseCount_gives :
    Gives text (FuncIn text) (closeWith "expected ')' after count()" ⟨.count, none, 0⟩) :=
  closeWith_gives _
    ⟨by simp, fun name same => (Option.some_ne_none name same.symm).elim, fun _ => rfl⟩

omit [Pcre2] in
theorem parseFieldFunc_gives {name : String} {type : AggFuncType}
    (known : fieldFuncType name = some type) :
    Gives text (FuncIn text) fun pos =>
      andThen (parseField "expected field name for aggregation" pos) fun field pos =>
      closeWith "expected ')' after aggregation" ⟨type, some field, 0⟩ pos := by
  obtain ⟨notCount, notPercentile⟩ := fieldFuncType_cases known
  refine (parseField_gives _).andThen fun field isField => ?_
  refine closeWith_gives _ ⟨?_, ?_, fun _ => rfl⟩
  · simp [notCount]
  · exact fun name same => Option.some.inj same ▸ isField

omit [Pcre2] in
theorem parseAggFunction_gives : Gives text (FuncIn text) parseAggFunction := by
  intro pos suffix func rest read
  rw [parseAggFunction] at read
  dsimp only at read
  by_cases unnamed : (skipSpace pos).takeWhile isalpha = []
  · rw [if_pos unnamed] at read
    cases read
  rw [if_neg unnamed] at read
  by_cases long : 32 ≤ ((skipSpace pos).takeWhile isalpha).length
  · rw [if_pos long] at read
    cases read
  rw [if_neg long] at read
  have later : (consumeChar '(' ((skipSpace pos).dropWhile isalpha)).2 <:+ pos :=
    (consumeChar_suffix _ _).trans ((List.dropWhile_suffix _).trans (skipSpace_suffix pos))
  generalize String.ofList (((skipSpace pos).takeWhile isalpha).map Char.toLower) = funcName at read
  cases opened : consumeChar '(' ((skipSpace pos).dropWhile isalpha) with
  | mk found between =>
      rw [opened] at read later
      cases found with
      | false => cases read
      | true =>
          have inside : between <:+ text := later.trans suffix
          suffices holds : FuncIn text func ∧ rest <:+ between from
            ⟨holds.1, holds.2.trans later⟩
          dsimp only at read
          by_cases count : funcName = "count"
          · rw [if_pos count] at read
            exact parseCount_gives between inside func rest read
          rw [if_neg count] at read
          by_cases percentile : funcName = "percentile"
          · rw [if_pos percentile] at read
            exact parsePercentile_gives between inside func rest read
          rw [if_neg percentile] at read
          cases known : fieldFuncType funcName with
          | none =>
              rw [known] at read
              cases read
          | some type =>
              rw [known] at read
              exact parseFieldFunc_gives known between inside func rest read

omit [Pcre2] in
theorem parseFunctions_gives :
    Gives text (fun funcs => funcs ≠ [] ∧ ∀ func ∈ funcs, FuncIn text func) parseFunctions :=
  Gives.branch (consumeChar_suffix '(') (fun pos later here => by rw [parseFunctions, here])
    (fun pos later here => by rw [parseFunctions, here])
    ((commaList_gives parseAggFunction_gives).andThen fun _ each => closeWith_gives _ each)
    (commaList_gives parseAggFunction_gives)

omit [Pcre2] in
theorem parseWindowSize_gives (name : String) : Gives text (· < 2 ^ 64) (parseWindowSize name) :=
  Gives.branch (consumeChar_suffix '(') (fun pos later here => by rw [parseWindowSize, here])
    (fun pos later here => by rw [parseWindowSize, here]) parseDuration_gives (Gives.error _)

omit [Pcre2] in
theorem parseSlide_gives : Gives text (· < 2 ^ 64) parseSlide :=
  Gives.branch (consumeChar_suffix ',') (fun pos later here => by rw [parseSlide, here])
    (fun pos later here => by rw [parseSlide, here]) parseDuration_gives (Gives.error _)

omit [Pcre2] in
theorem parseWindow_gives : Gives text IsWindow parseWindow := by
  have none_word : 0 < 2 ^ 64 := by decide
  refine Gives.branch (matchKeyword_suffix "tumbling".toList)
    (fun pos later here => by rw [parseWindow, here])
    (fun pos later here => by rw [parseWindow, here]) ?_ ?_
  · exact (parseWindowSize_gives _).andThen fun size fits =>
      closeWith_gives _ ⟨fits, none_word, none_word, rfl, rfl⟩
  dsimp only
  refine Gives.branch (matchKeyword_suffix "sliding".toList)
    (fun pos later here => by rw [here]) (fun pos later here => by rw [here]) ?_ ?_
  · exact (parseWindowSize_gives _).andThen fun size fits =>
      parseSlide_gives.andThen fun slide fits' =>
        closeWith_gives _ ⟨fits, fits', none_word, rfl⟩
  dsimp only
  refine Gives.branch (matchKeyword_suffix "session".toList)
    (fun pos later here => by rw [here]) (fun pos later here => by rw [here]) ?_ ?_
  · exact (parseWindowSize_gives _).andThen fun timeout fits =>
      closeWith_gives _ ⟨none_word, none_word, fits, rfl, rfl⟩
  · exact parseDuration_gives.andThen fun size fits =>
      Gives.ok ⟨fits, none_word, none_word, rfl, rfl⟩

/-! ## Statements -/

omit [Pcre2] in
/-- The scanner splits its text. -/
theorem scanFilter_split (keywords : List (List Char)) (stopOnPipe : Bool)
    (prev quote : Option Char) (depth : Nat) (pos : List Char) :
    (scanFilter keywords stopOnPipe prev quote depth pos).1 ++
      (scanFilter keywords stopOnPipe prev quote depth pos).2 = pos := by
  fun_induction scanFilter keywords stopOnPipe prev quote depth pos
  all_goals simp_all [keep]

theorem parseFilterExpr_gives {keywords : List (List Char)} (stopOnPipe : Bool) :
    Gives text (FilterIn text) (parseFilterExpr text keywords stopOnPipe) := by
  intro pos suffix filter rest read
  have split := scanFilter_split keywords stopOnPipe (charBefore text (skipSpace pos)) none 0
    (skipSpace pos)
  rw [parseFilterExpr] at read
  cases scan : scanFilter keywords stopOnPipe (charBefore text (skipSpace pos)) none 0
      (skipSpace pos) with
  | mk scanned current =>
      rw [scan] at read split
      have front : scanned <:+: text :=
        ((List.prefix_append scanned current).isInfix.trans (split ▸ List.infix_refl _)).trans
          ((skipSpace_suffix pos).trans suffix).isInfix
      have behind : current <:+ pos :=
        (split ▸ List.suffix_append scanned current).trans (skipSpace_suffix pos)
      dsimp only at read
      by_cases blank : scanned.rdropWhile isspace = []
      · rw [if_pos blank] at read
        cases read
      rw [if_neg blank] at read
      cases made : nblexFilterNew (scanned.rdropWhile isspace) with
      | none =>
          rw [made] at read
          cases read
      | some node =>
          rw [made] at read
          obtain ⟨rfl, rfl⟩ := Prod.mk.inj (Except.ok.inj read)
          exact ⟨⟨_, (List.rdropWhile_prefix _ _).isInfix.trans front, made⟩, behind⟩

theorem parseWhere_gives {keywords : List (List Char)} :
    Gives text (fun condition => ∀ filter ∈ condition, FilterIn text filter)
      (parseWhere text keywords) :=
  parseClause_gives "where"
    ((parseFilterExpr_gives true).andThen fun _ made =>
      Gives.ok fun _ same => Option.some.inj same ▸ made)
    fun other same => (Option.some_ne_none other same.symm).elim

theorem parseSingleQuery_getD (pos : List Char) :
    parseSingleQuery text pos = (parseCorrelate text pos).getD
      ((parseAggregate text pos).getD ((parseShow text pos).getD
        ((parseSelectAll text pos).getD (parseFilterQuery text pos)))) := by
  rw [parseSingleQuery]
  cases parseCorrelate text pos with
  | some query => rfl
  | none =>
      cases parseAggregate text pos with
      | some query => rfl
      | none =>
          cases parseShow text pos with
          | some query => rfl
          | none =>
              cases parseSelectAll text pos with
              | some query => rfl
              | none => rfl

theorem parseFilterQuery_gives : Gives text (StageIn text) (parseFilterQuery text) :=
  (parseFilterExpr_gives true).andThen fun _ made => Gives.ok made

theorem showAll_gives {keywords : List (List Char)} :
    Gives text (StageIn text) fun pos =>
      andThen (parseWhere text keywords pos) fun filter pos =>
        .ok (.show ⟨[], true, filter⟩, pos) :=
  parseWhere_gives.andThen fun _ made =>
    Gives.ok ⟨iff_of_true rfl rfl, fun _ => List.not_mem_nil.elim, made⟩

theorem showFields_gives {keywords : List (List Char)} :
    Gives text (StageIn text) fun pos =>
      andThen (parseShowFields pos) fun fields pos =>
      andThen (parseWhere text keywords pos) fun filter pos =>
      .ok (.show ⟨fields, false, filter⟩, pos) := by
  have fields : Gives text (fun fields => fields ≠ [] ∧ ∀ name ∈ fields, NameIn text name)
      parseShowFields := by
    refine (parseField_gives _).andThen fun first isFirst => ?_
    have loop : Gives text (fun fields => ∀ name ∈ fields, NameIn text name) fun rest =>
        commaLoop (parseField "expected field in show list") (rest.length + 1) rest :=
      fun pos => commaLoop_gives (parseField_gives _) (pos.length + 1) pos
    exact loop.andThen fun others each =>
      Gives.ok ⟨List.cons_ne_nil first others, List.forall_mem_cons.mpr ⟨isFirst, each⟩⟩
  exact fields.andThen fun _ named => parseWhere_gives.andThen fun _ made =>
    Gives.ok ⟨iff_of_false Bool.false_ne_true named.1, named.2, made⟩

/-! What a text gives that is tried for one kind of statement, and then for the others. -/

section Otherwise

variable {otherwise : List Char → Parsed Stage}

theorem parseCorrelate_gives (onNo : Gives text (StageIn text) otherwise) :
    Gives text (StageIn text) fun pos => (parseCorrelate text pos).getD (otherwise pos) := by
  refine Gives.opened (matchKeyword_suffix "correlate".toList)
    (fun pos later here => by rw [parseCorrelate, here])
    (fun pos later here => by rw [parseCorrelate, here]) ?_ onNo
  refine (parseFilterExpr_gives true).andThen fun left isLeft => ?_
  refine Gives.branch (matchKeyword_suffix "with".toList) (fun pos later here => by rw [here])
    (fun pos later here => by rw [here]) ?_ (Gives.error _)
  refine (parseFilterExpr_gives true).andThen fun right isRight => ?_
  refine (parseClause_gives "within" parseDuration_gives (by decide)).andThen fun within fits => ?_
  refine Gives.ok ⟨isLeft, isRight, ?_⟩
  dsimp only
  split_ifs with zero
  · decide
  · exact ⟨Nat.pos_of_ne_zero zero, fits⟩

theorem parseAggregate_gives (onNo : Gives text (StageIn text) otherwise) :
    Gives text (StageIn text) fun pos => (parseAggregate text pos).getD (otherwise pos) := by
  refine Gives.opened (matchKeyword_suffix "aggregate".toList)
    (fun pos later here => by rw [parseAggregate, here])
    (fun pos later here => by rw [parseAggregate, here]) ?_ onNo
  refine parseFunctions_gives.andThen fun funcs each => ?_
  have fields : Gives text (fun fields => ∀ name ∈ fields, NameIn text name)
      (parseClause "by" (commaList (parseField "expected field after 'by'")) []) :=
    parseClause_gives "by"
      ((commaList_gives (parseField_gives _)).mono fun _ named => named.2)
      fun _ => List.not_mem_nil.elim
  refine fields.andThen fun groupBy named => parseWhere_gives.andThen fun filter made => ?_
  have noWindow : IsWindow ⟨.none, 0, 0, 0⟩ := ⟨by decide, by decide, by decide, rfl, rfl, rfl⟩
  refine (parseClause_gives "window" parseWindow_gives noWindow).andThen fun window isWindow => ?_
  exact Gives.ok ⟨each.1, each.2, named, made, isWindow⟩

theorem parseShow_gives (onNo : Gives text (StageIn text) otherwise) :
    Gives text (StageIn text) fun pos => (parseShow text pos).getD (otherwise pos) := by
  refine Gives.opened (matchKeyword_suffix "show".toList)
    (fun pos later here => by rw [parseShow, here])
    (fun pos later here => by rw [parseShow, here]) ?_ onNo
  exact Gives.branch (consumeChar_suffix '*') (fun pos later here => by rw [here])
    (fun pos later here => by rw [here]) showAll_gives showFields_gives

theorem parseSelectAll_gives (onNo : Gives text (StageIn text) otherwise) :
    Gives text (StageIn text) fun pos => (parseSelectAll text pos).getD (otherwise pos) :=
  Gives.opened (consumeChar_suffix '*')
    (fun pos later here => by rw [parseSelectAll, here])
    (fun pos later here => by rw [parseSelectAll, here]) showAll_gives onNo

end Otherwise

/-- One stage, by the statement that opens it. -/
theorem parseSingleQuery_gives : Gives text (StageIn text) (parseSingleQuery text) := by
  rw [funext parseSingleQuery_getD]
  exact parseCorrelate_gives (parseAggregate_gives (parseShow_gives
    (parseSelectAll_gives parseFilterQuery_gives)))

/-- The stages after the first. -/
theorem parseStages_gives (fuel : Nat) :
    Gives text (fun stages => ∀ stage ∈ stages, StageIn text stage) (parseStages text fuel) := by
  induction fuel with
  | zero => exact Gives.ok fun _ => List.not_mem_nil.elim
  | succ fuel ih =>
      have piped : Gives text (fun stages => ∀ stage ∈ stages, StageIn text stage) fun pos =>
          andThen (parseSingleQuery text pos) fun stage pos =>
          andThen (parseStages text fuel pos) fun stages pos => .ok (stage :: stages, pos) :=
        parseSingleQuery_gives.andThen fun first isFirst => ih.andThen fun rest each =>
          Gives.ok (List.forall_mem_cons.mpr ⟨isFirst, each⟩)
      refine Gives.branch (consumeChar_suffix '|') ?_ ?_ piped
        (Gives.ok fun _ => List.not_mem_nil.elim)
      · intro pos later here
        rw [parseStages]
        rw [consumeChar] at here
        split at here
        · cases here
        · next c rest start =>
          split_ifs at here with pipe
          · obtain rfl := (Prod.mk.inj here).2
            rw [start, pipe]
            rfl
          · cases here
      · intro pos later here
        rw [parseStages]
        rw [consumeChar] at here
        split at here
        · next start =>
          obtain rfl := (Prod.mk.inj here).2
          rw [start]
        · next c rest start =>
          split_ifs at here with pipe
          · cases here
          · obtain rfl := (Prod.mk.inj here).2
            rw [start]
            split
            · next pos' same => exact absurd (List.cons.inj same).1 pipe
            · rfl

theorem parsePipeline_gives : Gives text (QueryIn text) (parsePipeline text) := by
  refine parseSingleQuery_gives.andThen fun first isFirst => ?_
  refine (parseStages_gives (text.length + 1)).andThen fun stages each => Gives.ok ?_
  split_ifs with alone
  · exact isFirst
  · refine ⟨?_, List.forall_mem_cons.mpr ⟨isFirst, each⟩⟩
    exact Nat.succ_le_succ (List.length_pos_of_ne_nil alone)

end Query

/-- A text that is accepted is a well-formed query. -/
theorem nqlParse_wellFormed [Pcre2] {text : List Char} {query : NqlQuery}
    (accepted : nqlParse text = some query) : QueryIn text query := by
  rw [nqlParse, nqlParseEx] at accepted
  split_ifs at accepted
  · cases accepted
  · cases read : parsePipeline text (skipSpace text) with
    | error message =>
        rw [read] at accepted
        cases accepted
    | ok given =>
        obtain ⟨found, rest⟩ := given
        rw [read] at accepted
        dsimp only at accepted
        split_ifs at accepted
        · obtain rfl := Option.some.inj accepted
          exact (parsePipeline_gives _ (skipSpace_suffix text) found rest read).1
        · cases accepted

/-- `aggregate avg(load) by host window sliding(2s, 500ms) | show avg_load`. -/
def slidingText : List Char :=
  "aggregate avg(load) by host window sliding(2s, 500ms) | show avg_load".toList

theorem nqlParse_wellFormed_sliding :
    let _ := literalPcre2
    QueryIn slidingText (.pipeline
      [.aggregate ⟨[⟨.avg, some "load", 0⟩], ["host"], none, ⟨.sliding, 2000, 500, 0⟩⟩,
        .show ⟨["avg_load"], false, none⟩]) := by
  intro _
  exact nqlParse_wellFormed (by decide)

end NqlParser

end Nblex
