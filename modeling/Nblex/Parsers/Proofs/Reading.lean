import Nblex.Core.FilterEngine.Proofs.Atoms
import Nblex.Parsers.Proofs.QueryText

/-!
# Reading the parts of a canonical text

Every function of the parser skips blanks before it reads, so a position is described by what
stands at it up to blanks, and a function reads a text if it goes from a position of that text to
a position of what follows. The statements about the functions compose along the text.
-/

namespace Nblex

namespace NqlParser

/-- Up to blanks, the text stands at the position. -/
def At (pos text : List Char) : Prop := skipSpace pos = skipSpace text

/-- The function reads the text as the value, wherever the tail follows it. -/
def Reads {α : Type} (parse : List Char → Parsed α) (value : α) (text tail : List Char) : Prop :=
  ∀ pos, At pos (text ++ tail) → ∃ pos', parse pos = .ok (value, pos') ∧ At pos' tail

theorem At.refl (text : List Char) : At text text := rfl

theorem skipSpace_idem (pos : List Char) : skipSpace (skipSpace pos) = skipSpace pos :=
  List.dropWhile_idempotent isspace pos

theorem At.skipped {pos text : List Char} (here : At pos text) : At (skipSpace pos) text := by
  rw [At, skipSpace_idem]
  exact here

theorem At.blank {pos text : List Char} (here : At pos text) : At (' ' :: pos) text := by
  rw [At, skipSpace_blank]
  exact here

theorem At.of_blank {pos text : List Char} (here : At pos (' ' :: text)) : At pos text := by
  rw [At, skipSpace_blank] at here
  exact here

theorem At.visible {pos text : List Char} {c : Char} (here : At pos (c :: text))
    (visible : isspace c = false) : skipSpace pos = c :: text := by
  rw [At, skipSpace_of_head text visible] at here
  exact here

/-- A text that the function reads without going on. -/
theorem Reads.nothing {α : Type} {parse : List Char → Parsed α} {value : α} {tail : List Char}
    (stays : ∀ pos, At pos tail → parse pos = .ok (value, skipSpace pos)) :
    Reads parse value [] tail := by
  intro pos here
  exact ⟨skipSpace pos, stays pos here, At.skipped here⟩

theorem Reads.andThen {α β : Type} {read : List Char → Parsed α}
    {next : α → List Char → Parsed β} {a : α} {b : β} {text later tail : List Char}
    (first : Reads read a text (later ++ tail)) (second : Reads (next a) b later tail) :
    Reads (fun pos => NqlParser.andThen (read pos) next) b (text ++ later) tail := by
  intro pos here
  rw [List.append_assoc] at here
  obtain ⟨mid, parsed, atMid⟩ := first pos here
  obtain ⟨rest, parsedRest, atRest⟩ := second mid atMid
  refine ⟨rest, ?_, atRest⟩
  show NqlParser.andThen (read pos) next = _
  rw [parsed]
  exact parsedRest

theorem Reads.ok {α : Type} (value : α) (tail : List Char) :
    Reads (fun pos => .ok (value, pos)) value [] tail := by
  intro pos here
  exact ⟨pos, rfl, here⟩

/-! ## Characters and keywords -/

/-- The next character other than a blank, in lower case. -/
def lead (pos : List Char) : Option Char := (skipSpace pos).head?.map Char.toLower

theorem At.lead {pos text : List Char} (here : At pos text) : lead pos = lead text := by
  unfold NqlParser.lead
  rw [here]

theorem consumeChar_read {c : Char} (visible : isspace c = false) {pos tail : List Char}
    (here : At pos (c :: tail)) : consumeChar c pos = (true, tail) := by
  rw [consumeChar, here.visible visible]
  exact if_pos rfl

theorem consumeChar_absent {c : Char} {pos : List Char}
    (other : ∀ rest, skipSpace pos ≠ c :: rest) :
    consumeChar c pos = (false, skipSpace pos) := by
  rw [consumeChar]
  cases rest : skipSpace pos with
  | nil => rfl
  | cons d rest' =>
      have differs : d ≠ c := by
        rintro rfl
        exact other rest' rest
      simp only [if_neg differs]

theorem consumeChar_other {c : Char} {pos : List Char} (other : lead pos ≠ some c.toLower) :
    consumeChar c pos = (false, skipSpace pos) := by
  apply consumeChar_absent
  intro rest start
  apply other
  rw [lead, start]
  rfl

theorem startsWithCase_self (keyword tail : List Char) :
    startsWithCase (keyword ++ tail) keyword = true := by
  rw [startsWithCase, List.map_append, startsWith_iff]
  exact ⟨_, rfl⟩

/-- A keyword that no blank starts. -/
def isWord (keyword : List Char) : Bool := keyword ≠ [] && skipSpace keyword = keyword

theorem isWord_start {keyword : List Char} (word : isWord keyword = true) (tail : List Char) :
    skipSpace (keyword ++ tail) = keyword ++ tail := by
  simp only [isWord, Bool.and_eq_true, decide_eq_true_eq] at word
  obtain ⟨notEmpty, starts⟩ := word
  rw [skipSpace_append (by rw [starts]; exact notEmpty), starts]

theorem matchKeyword_read {keyword pos tail : List Char} (word : isWord keyword = true)
    (here : At pos (keyword ++ tail)) (ends : endsKeyword tail = true) :
    matchKeyword keyword pos = (true, tail) := by
  rw [At, isWord_start word] at here
  rw [matchKeyword, here, List.drop_left, startsWithCase_self, ends]
  rfl

theorem matchKeyword_absent {keyword pos : List Char}
    (other : startsWithCase (skipSpace pos) keyword = false) :
    matchKeyword keyword pos = (false, skipSpace pos) := by
  rw [matchKeyword, other]
  rfl

theorem matchKeyword_other {keyword pos : List Char} (notEmpty : keyword ≠ [])
    (other : lead pos ≠ keyword.head?.map Char.toLower) :
    matchKeyword keyword pos = (false, skipSpace pos) := by
  apply matchKeyword_absent
  unfold lead at other
  cases keyword with
  | nil => exact absurd rfl notEmpty
  | cons c keyword =>
      cases rest : skipSpace pos with
      | nil => rfl
      | cons d rest =>
          rw [rest] at other
          have differs : (c.toLower == d.toLower) = false := by
            rw [beq_eq_false_iff_ne]
            intro same
            apply other
            show some d.toLower = some c.toLower
            rw [same]
          rw [startsWithCase_cons, differs, Bool.false_and]

theorem matchKeyword_lead {keyword pos : List Char} {c : Char} (notEmpty : keyword ≠ [])
    (leads : lead pos = some c) (other : (some c == keyword.head?.map Char.toLower) = false) :
    (matchKeyword keyword pos).1 = false := by
  have differs : lead pos ≠ keyword.head?.map Char.toLower := by
    rw [leads]
    exact beq_eq_false_iff_ne.mp other
  rw [matchKeyword_other notEmpty differs]

/-- What follows a text does not change whether a keyword stands at its start. -/
theorem matchKeyword_append {keyword : List Char} (clean : areKeywords [keyword] = true)
    {text tail : List Char} (notBlank : skipSpace text ≠ []) (blank : BlankOrEnd tail)
    {pos : List Char} (here : At pos (text ++ tail)) :
    (matchKeyword keyword pos).1 = (matchKeyword keyword text).1 := by
  have found : ∀ pos, (matchKeyword keyword pos).1 = (startsWithCase (skipSpace pos) keyword &&
      endsKeyword ((skipSpace pos).drop keyword.length)) := by
    intro pos
    rw [matchKeyword]
    split
    · next same => rw [same]
    · next other =>
      rw [Bool.not_eq_true] at other
      rw [other]
  have word := areKeywords_mem clean (List.mem_singleton.mpr rfl)
  rw [found, found, here, skipSpace_append notBlank]
  exact keywordEnd_append blank keyword word.2.1 (skipSpace text)

theorem consumeChar_append {c : Char} {text tail : List Char} (notBlank : skipSpace text ≠ [])
    {pos : List Char} (here : At pos (text ++ tail)) :
    (consumeChar c pos).1 = (consumeChar c text).1 := by
  rw [consumeChar, consumeChar, here, skipSpace_append notBlank]
  cases start : skipSpace text with
  | nil => exact absurd start notBlank
  | cons d rest =>
      simp only [List.cons_append]
      split
      · rfl
      · rfl

theorem closeWith_reads {α : Type} (message : String) (value : α) (tail : List Char) :
    Reads (closeWith message value) value [')'] tail := by
  intro pos here
  rw [List.singleton_append] at here
  refine ⟨tail, ?_, At.refl tail⟩
  rw [closeWith, consumeChar_read (by decide) here]

/-! ## Names -/

/-- Nothing that would belong to the name follows. -/
def EndsName (tail : List Char) : Prop := ∀ c ∈ tail.head?, isFieldChar c = false

theorem Identifier.shape (field : Identifier) :
    ∃ c rest, field.chars = c :: rest ∧ (isalpha c || c = '_') = true ∧
      ∀ d ∈ field.chars, isFieldChar d = true := by
  have accepted := field.accepted
  unfold parseIdentifier at accepted
  cases start : skipSpace field.chars with
  | nil =>
      rw [start] at accepted
      cases accepted
  | cons c rest =>
      rw [start] at accepted
      by_cases opens : (isalpha c || c = '_') = true
      · simp only [if_pos opens, Option.some.injEq, Prod.mk.injEq] at accepted
        obtain ⟨taken, dropped⟩ := accepted
        have whole : (c :: rest).takeWhile isFieldChar = field.chars :=
          String.ofList_injective taken
        have same : c :: rest = field.chars := by
          rw [← List.takeWhile_append_dropWhile (p := isFieldChar) (l := c :: rest), whole, dropped,
            List.append_nil]
        refine ⟨c, rest, same.symm, opens, ?_⟩
        rw [← whole]
        intro d mem
        exact List.mem_takeWhile_imp mem
      · simp only [if_neg opens] at accepted
        cases accepted

theorem startsName_visible {c : Char} (opens : (isalpha c || c = '_') = true) :
    isspace c = false := by
  rw [Bool.eq_false_iff]
  intro space
  have noField := isspace_not_fieldChar space
  have field : isFieldChar c = true := by
    rw [Bool.or_eq_true] at opens
    rcases opens with alpha | underscore
    · have letter : c.isAlpha = true := alpha
      simp [isFieldChar, isalnum, Char.isAlphanum, letter]
    · have same : c = '_' := of_decide_eq_true underscore
      rw [same]
      decide
  rw [field] at noField
  cases noField

theorem parseField_reads (message : String) (field : Identifier) {tail : List Char}
    (ends : EndsName tail) : Reads (parseField message) field.name field.chars tail := by
  intro pos here
  obtain ⟨c, rest, shape, opens, all⟩ := field.shape
  obtain ⟨taken, dropped⟩ := takeWhile_stop all ends
  have start : skipSpace pos = c :: (rest ++ tail) := by
    rw [shape, List.cons_append] at here
    exact here.visible (startsName_visible opens)
  refine ⟨tail, ?_, At.refl tail⟩
  rw [shape, List.cons_append] at taken dropped
  have name : String.ofList (c :: rest) = field.name := by rw [Identifier.name, shape]
  rw [parseField, parseIdentifier, start]
  simp only [if_pos opens, taken, dropped, name]

/-! ## Numbers -/

/-- The decimal numeral of a `uint64_t` is read back. -/
theorem strtoull_toDigits {n : Nat} (small : n < 2 ^ 64) {pos tail : List Char}
    (here : At pos (Nat.toDigits 10 n ++ tail)) (stop : ∀ c ∈ tail.head?, isdigit c = false) :
    strtoull (skipSpace pos) = some (n, tail) := by
  have number := toDigits_digits n
  obtain ⟨taken, dropped⟩ := takeWhile_stop number.2 stop
  have unsigned : takeSign (skipSpace (skipSpace pos)) = (false, Nat.toDigits 10 n ++ tail) := by
    rw [skipSpace_idem, here]
    exact takeSign_number false number tail
  have inRange : ¬ u64Max < n := by
    unfold u64Max
    omega
  rw [strtoull, unsigned]
  simp only [taken, dropped]
  cases digits : Nat.toDigits 10 n with
  | nil => exact absurd digits number.1
  | cons c rest =>
      have value : decimalValue (c :: rest) = n := by rw [← digits, decimalValue_toDigits]
      simp only [value, if_neg inRange, if_neg Bool.false_ne_true]

theorem parseDuration_reads (spelling : Spelling) (duration : Duration) (tail : List Char) :
    Reads parseDuration duration.val (duration.text spelling) tail := by
  intro pos here
  obtain ⟨n, positive, small⟩ := duration
  have value : u64Mul n 1 = n := by
    rw [u64Mul_of_lt (by omega), Nat.mul_one]
  have unit : ∀ rest, rest = 'm' :: 's' :: tail ∨ rest = ' ' :: 'm' :: 's' :: tail →
      At pos (Nat.toDigits 10 n ++ rest) → parseDuration pos = .ok (n, tail) := by
    intro rest shape atRest
    have stop : ∀ c ∈ rest.head?, isdigit c = false := by
      rcases shape with rfl | rfl
      · rintro c ⟨⟩
        decide
      · rintro c ⟨⟩
        decide
    have skipped : skipSpace rest = 'm' :: 's' :: tail := by
      rcases shape with rfl | rfl
      · exact skipSpace_of_head _ (by decide)
      · rw [skipSpace_blank, skipSpace_of_head _ (by decide)]
    rw [parseDuration, strtoull_toDigits small atRest stop]
    simp only [skipped, value]
    rfl
  refine ⟨tail, ?_, At.refl tail⟩
  cases blank : spelling.unitBlank with
  | true =>
      unfold Duration.text at here
      rw [blank, List.append_assoc] at here
      exact unit _ (Or.inr rfl) here
  | false =>
      unfold Duration.text at here
      rw [blank, List.append_assoc] at here
      exact unit _ (Or.inl rfl) here

/-- The numeral of a natural percentile, in front of the closing parenthesis. -/
theorem strtodDouble_toDigits (n : Nat) {pos tail : List Char}
    (here : At pos (Nat.toDigits 10 n ++ ')' :: tail)) :
    strtodDouble (skipSpace pos) = ((n : Double), ')' :: tail) ∧
      ')' :: tail ≠ skipSpace pos := by
  have number := toDigits_digits n
  have stopsAt : ∀ c ∈ (')' :: tail).head?, isdigit c = false ∧ c ≠ '.' ∧ c.toLower ≠ 'e' := by
    rintro c ⟨⟩
    decide
  have noHex : ∀ c ∈ (')' :: tail).head?, c.toLower ≠ 'x' := by
    rintro c ⟨⟩
    decide
  have read := strtod_of_strtodIn false number noHex (strtodIn_whole number stopsAt)
  rw [decimalValue_toDigits] at read
  have start : skipSpace pos = Nat.toDigits 10 n ++ ')' :: tail := by
    rw [here]
    cases digits : Nat.toDigits 10 n with
    | nil => exact absurd digits number.1
    | cons c rest =>
        have digit : isdigit c = true := number.2 c (by rw [digits]; exact List.mem_cons_self)
        rw [List.cons_append, skipSpace_of_head _ (digit_plain digit).1]
  have finite := strtodDouble_number false number (')' :: tail)
  rw [read] at finite
  rw [start]
  refine ⟨finite, ?_⟩
  intro same
  have lengths := congrArg List.length same
  rw [List.length_append] at lengths
  exact number.1 (List.eq_nil_of_length_eq_zero (by omega))

/-! ## Lists -/

section Lists

variable {α β : Type} {item : List Char → Parsed β} {value : α → β} {text : α → List Char}
  {stops : List Char → Prop}

/-- A loop over items reads the items behind the first. -/
theorem commaLoop_reads (each : ∀ a tail, stops tail → Reads item (value a) (text a) tail)
    (comma : ∀ tail, stops (',' :: tail)) {tail : List Char} (end_stops : stops tail)
    (noComma : lead tail ≠ some ',') (items : List α) :
    ∀ fuel, items.length < fuel →
      Reads (commaLoop item fuel) (items.map value) (commaText text items) tail := by
  induction items with
  | nil =>
      intro fuel enough
      cases fuel with
      | zero => exact absurd enough (Nat.not_lt_zero _)
      | succ fuel =>
          apply Reads.nothing
          intro pos here
          have other : lead pos ≠ some (',' : Char).toLower := by
            rw [here.lead]
            exact noComma
          rw [commaLoop, consumeChar_other other]
          rfl
  | cons a items ih =>
      intro fuel enough
      cases fuel with
      | zero => exact absurd enough (Nat.not_lt_zero _)
      | succ fuel =>
          intro pos here
          have later : stops (commaText text items ++ tail) := by
            cases items with
            | nil => exact end_stops
            | cons b items => exact comma _
          have reads : Reads (fun pos =>
              andThen (item pos) fun first pos =>
              andThen (commaLoop item fuel pos) fun rest pos => .ok (first :: rest, pos))
              (value a :: items.map value) (text a ++ (commaText text items ++ [])) tail := by
            apply Reads.andThen (each a _ (by rw [List.append_nil]; exact later))
            apply Reads.andThen (ih fuel (by simpa using enough))
            exact Reads.ok _ tail
          have found :
              consumeChar ',' pos = (true, ' ' :: (text a ++ (commaText text items ++ tail))) := by
            apply consumeChar_read (by decide)
            simpa [commaText] using here
          obtain ⟨pos', parsed, atTail⟩ := reads (' ' :: (text a ++ (commaText text items ++ tail)))
            (by rw [List.append_nil, List.append_assoc]; exact (At.refl _).blank)
          refine ⟨pos', ?_, atTail⟩
          rw [commaLoop, found]
          exact parsed

theorem commaText_length (text : α → List Char) (items : List α) (tail : List Char) :
    items.length ≤ (skipSpace (commaText text items ++ tail)).length := by
  have whole : items.length ≤ (commaText text items).length := by
    induction items with
    | nil => exact Nat.zero_le _
    | cons a items ih =>
        have step : commaText text (a :: items) = ", ".toList ++ text a ++ commaText text items :=
          rfl
        rw [step, List.length_append, List.length_append, List.length_cons]
        have two : ", ".toList.length = 2 := by decide
        omega
  cases items with
  | nil => exact Nat.zero_le _
  | cons a items =>
      have visible : skipSpace (commaText text (a :: items) ++ tail) =
          commaText text (a :: items) ++ tail := skipSpace_of_head _ (by decide)
      rw [visible, List.length_append]
      omega

/-- The fuel of a loop after its first item covers the items at the position. -/
theorem commaLoop_afterFirst (each : ∀ a tail, stops tail → Reads item (value a) (text a) tail)
    (comma : ∀ tail, stops (',' :: tail)) {tail : List Char} (end_stops : stops tail)
    (noComma : lead tail ≠ some ',') (items : List α) :
    Reads (fun pos => commaLoop item (pos.length + 1) pos) (items.map value)
      (commaText text items) tail := by
  intro pos here
  have enough : items.length < pos.length + 1 := by
    have atItems := commaText_length text items tail
    rw [← here] at atItems
    have skipped := skipSpace_length_le pos
    omega
  exact commaLoop_reads each comma end_stops noComma items (pos.length + 1) enough pos here

theorem commaList_reads (each : ∀ a tail, stops tail → Reads item (value a) (text a) tail)
    (comma : ∀ tail, stops (',' :: tail)) {tail : List Char} (end_stops : stops tail)
    (noComma : lead tail ≠ some ',') (first : α) (items : List α) :
    Reads (commaList item) (value first :: items.map value)
      (text first ++ commaText text items) tail := by
  have later : stops (commaText text items ++ tail) := by
    cases items with
    | nil => exact end_stops
    | cons b items => exact comma _
  have reads : Reads (commaList item) (value first :: items.map value)
      (text first ++ (commaText text items ++ [])) tail := by
    apply Reads.andThen (each first _ (by rw [List.append_nil]; exact later))
    apply Reads.andThen (commaLoop_afterFirst each comma end_stops noComma items)
    exact Reads.ok _ tail
  rw [List.append_nil] at reads
  exact reads

end Lists

/-! ## Aggregations and windows -/

/-- A name of letters in front of an opening parenthesis. -/
theorem aggName_read {name pos rest : List Char} (notEmpty : name ≠ [])
    (letters : name.all isalpha = true) (here : At pos (name ++ '(' :: rest)) :
    (skipSpace pos).takeWhile isalpha = name ∧
      consumeChar '(' ((skipSpace pos).dropWhile isalpha) = (true, rest) := by
  have all : ∀ c ∈ name, isalpha c = true := List.all_eq_true.mp letters
  have stop : ∀ c ∈ ('(' :: rest).head?, isalpha c = false := by
    rintro c ⟨⟩
    decide
  have start : skipSpace pos = name ++ '(' :: rest := by
    cases name with
    | nil => exact absurd rfl notEmpty
    | cons c name =>
        have opens : (isalpha c || c = '_') = true := by
          rw [all c List.mem_cons_self]
          rfl
        exact here.visible (startsName_visible opens)
  obtain ⟨taken, dropped⟩ := takeWhile_stop all stop
  rw [start, taken, dropped, consumeChar_read (by decide) (At.refl _)]
  exact ⟨rfl, rfl⟩

/-- `parse_agg_function` after the name and the parenthesis. -/
def aggArguments (funcName : String) (pos : List Char) : Parsed AggFunc :=
  if funcName = "count" then closeWith "expected ')' after count()" ⟨.count, none, 0⟩ pos
  else if funcName = "percentile" then parsePercentile pos
  else
    match fieldFuncType funcName with
    | none => .error ("unknown aggregation function '" ++ funcName ++ "'")
    | some type =>
        andThen (parseField "expected field name for aggregation" pos) fun field pos =>
        closeWith "expected ')' after aggregation" ⟨type, some field, 0⟩ pos

/-- The name of an aggregation fits the buffer of the parser. -/
def isAggName (name : List Char) : Bool :=
  name ≠ [] && name.all isalpha && decide (name.length < 32)

theorem parseAggFunction_named (name : List Char) {pos rest : List Char}
    (isName : isAggName name = true) (here : At pos (name ++ '(' :: rest)) :
    parseAggFunction pos = aggArguments (String.ofList (name.map Char.toLower)) rest := by
  simp only [isAggName, Bool.and_eq_true, decide_eq_true_eq] at isName
  obtain ⟨⟨notEmpty, letters⟩, short⟩ := isName
  obtain ⟨taken, opened⟩ := aggName_read notEmpty letters here
  have fits : ¬ 32 ≤ name.length := by omega
  rw [parseAggFunction, taken, opened]
  simp only [if_neg notEmpty, if_neg fits]
  rfl

theorem endsName_close (tail : List Char) : EndsName (')' :: tail) := by
  rintro c ⟨⟩
  decide

theorem endsName_comma (tail : List Char) : EndsName (',' :: tail) := by
  rintro c ⟨⟩
  decide

theorem percentile_reads (field : Identifier) (value : Nat) (tail : List Char) :
    Reads parsePercentile ⟨.percentile, some field.name, value⟩
      (field.chars ++ (", ".toList ++ (Nat.toDigits 10 value ++ [')']))) tail := by
  apply Reads.andThen (parseField_reads _ field (endsName_comma _))
  intro pos here
  have comma : consumeChar ',' pos = (true, ' ' :: (Nat.toDigits 10 value ++ ')' :: tail)) := by
    apply consumeChar_read (by decide)
    simpa using here
  have atNumber : At (' ' :: (Nat.toDigits 10 value ++ ')' :: tail))
      (Nat.toDigits 10 value ++ ')' :: tail) := (At.refl _).blank
  obtain ⟨number, moved⟩ := strtodDouble_toDigits value atNumber
  have closed := consumeChar_read (by decide : isspace ')' = false) (At.refl (')' :: tail))
  refine ⟨tail, ?_, At.refl tail⟩
  simp only [comma, number, if_neg moved, closeWith, closed]

theorem aggArguments_field (func : FieldFunc) (field : Identifier) (tail : List Char) :
    Reads (aggArguments (String.ofList (func.name.map Char.toLower)))
      ⟨func.type, some field.name, 0⟩ (field.chars ++ [')']) tail := by
  have byName : aggArguments (String.ofList (func.name.map Char.toLower)) = fun pos =>
      andThen (parseField "expected field name for aggregation" pos) fun name pos =>
      closeWith "expected ')' after aggregation" ⟨func.type, some name, 0⟩ pos := by
    cases func <;> rfl
  rw [byName]
  exact Reads.andThen (parseField_reads _ field (endsName_close tail)) (closeWith_reads _ _ tail)

theorem FieldFunc.isAggName (func : FieldFunc) : isAggName func.name = true := by
  cases func <;> decide

theorem parseAggFunction_reads (func : FuncTree) (tail : List Char) :
    Reads parseAggFunction func.func func.text tail := by
  intro pos here
  cases func with
  | count =>
      have named := parseAggFunction_named "count".toList (by decide) here
      obtain ⟨pos', closed, atTail⟩ := closeWith_reads "expected ')' after count()"
        (⟨.count, none, 0⟩ : AggFunc) tail (')' :: tail) (At.refl _)
      exact ⟨pos', named.trans closed, atTail⟩
  | ofField func field =>
      have atName : At pos (func.name ++ '(' :: (field.chars ++ [')']) ++ tail) := here
      rw [List.append_assoc, List.cons_append] at atName
      have named := parseAggFunction_named func.name func.isAggName atName
      obtain ⟨pos', parsed, atTail⟩ := aggArguments_field func field tail _ (At.refl _)
      exact ⟨pos', named.trans parsed, atTail⟩
  | percentile field value =>
      have atName : At pos ("percentile".toList ++ '(' ::
          ((field.chars ++ (", ".toList ++ (Nat.toDigits 10 value ++ [')']))) ++ tail)) := here
      have named := parseAggFunction_named "percentile".toList (by decide) atName
      obtain ⟨pos', parsed, atTail⟩ := percentile_reads field value tail _ (At.refl _)
      exact ⟨pos', named.trans parsed, atTail⟩

theorem parseWindowSize_reads (spelling : Spelling) (name : String) (size : Duration)
    (tail : List Char) :
    Reads (parseWindowSize name) size.val ('(' :: size.text spelling) tail := by
  intro pos here
  obtain ⟨pos', parsed, atTail⟩ := parseDuration_reads spelling size tail _ (At.refl _)
  refine ⟨pos', ?_, atTail⟩
  rw [parseWindowSize, consumeChar_read (by decide) here]
  exact parsed

theorem parseSlide_reads (spelling : Spelling) (slide : Duration) (tail : List Char) :
    Reads parseSlide slide.val (", ".toList ++ slide.text spelling) tail := by
  intro pos here
  have comma : consumeChar ',' pos = (true, ' ' :: (slide.text spelling ++ tail)) :=
    consumeChar_read (by decide) here
  obtain ⟨pos', parsed, atTail⟩ := parseDuration_reads spelling slide tail _ (At.refl _).blank
  refine ⟨pos', ?_, atTail⟩
  rw [parseSlide, comma]
  exact parsed

/-- One duration in the parentheses of a window. -/
theorem windowOf_reads (spelling : Spelling) (name message : String) (window : Nat → Window)
    (size : Duration) (tail : List Char) :
    Reads (fun pos => andThen (parseWindowSize name pos) fun size pos =>
        closeWith message (window size) pos)
      (window size.val) ('(' :: size.text spelling ++ [')']) tail :=
  Reads.andThen (parseWindowSize_reads spelling name size _) (closeWith_reads message _ tail)

theorem slidingWindow_reads (spelling : Spelling) (size slide : Duration) (tail : List Char) :
    Reads (fun pos => andThen (parseWindowSize "sliding" pos) fun size pos =>
        andThen (parseSlide pos) fun slide pos =>
        closeWith "expected ')' after sliding window" (⟨.sliding, size, slide, 0⟩ : Window) pos)
      ⟨.sliding, size.val, slide.val, 0⟩
      ('(' :: size.text spelling ++ ((", ".toList ++ slide.text spelling) ++ [')'])) tail := by
  apply Reads.andThen (parseWindowSize_reads spelling "sliding" size _)
  exact Reads.andThen (parseSlide_reads spelling slide _) (closeWith_reads _ _ tail)

/-- The keyword of a window is found in front of its parenthesis. -/
theorem parseWindow_reads (spelling : Spelling) (window : WindowTree) (tail : List Char) :
    Reads parseWindow window.window (window.text spelling) tail := by
  intro pos here
  cases window with
  | tumbling size =>
      have keyword : matchKeyword "tumbling".toList pos =
          (true, '(' :: (size.text spelling ++ [')']) ++ tail) :=
        matchKeyword_read (by decide) here rfl
      obtain ⟨pos', parsed, atTail⟩ := windowOf_reads spelling "tumbling"
        "expected ')' after tumbling window" (fun size => ⟨.tumbling, size, 0, 0⟩) size tail _
        (At.refl _)
      refine ⟨pos', ?_, atTail⟩
      rw [parseWindow, keyword]
      exact parsed
  | sliding size slide =>
      have other : matchKeyword "tumbling".toList pos = (false, skipSpace pos) := by
        have leads : lead pos = some 's' := here.lead
        apply matchKeyword_other (by decide)
        rw [leads]
        decide
      have keyword : matchKeyword "sliding".toList (skipSpace pos) =
          (true, '(' :: size.text spelling ++
            ((", ".toList ++ slide.text spelling) ++ [')']) ++ tail) := by
        apply matchKeyword_read (by decide) _ rfl
        have atKeyword : At (skipSpace pos) ("sliding(".toList ++
          (size.text spelling ++ (", ".toList ++ (slide.text spelling ++ [')']))) ++ tail) :=
          here.skipped
        rw [List.append_assoc (", ".toList)]
        exact atKeyword
      obtain ⟨pos', parsed, atTail⟩ := slidingWindow_reads spelling size slide tail _ (At.refl _)
      refine ⟨pos', ?_, atTail⟩
      rw [parseWindow, other]
      simp only [keyword]
      exact parsed
  | session timeout =>
      have noTumbling : matchKeyword "tumbling".toList pos = (false, skipSpace pos) := by
        have leads : lead pos = some 's' := here.lead
        apply matchKeyword_other (by decide)
        rw [leads]
        decide
      have noSliding : matchKeyword "sliding".toList (skipSpace pos) =
          (false, skipSpace (skipSpace pos)) := by
        apply matchKeyword_absent
        rw [skipSpace_idem, here]
        rfl
      have keyword : matchKeyword "session".toList (skipSpace (skipSpace pos)) =
          (true, '(' :: timeout.text spelling ++ [')'] ++ tail) :=
        matchKeyword_read (by decide) here.skipped.skipped rfl
      obtain ⟨pos', parsed, atTail⟩ := windowOf_reads spelling "session"
        "expected ')' after session window" (fun timeout => ⟨.session, 0, 0, timeout⟩) timeout
        tail _ (At.refl _)
      refine ⟨pos', ?_, atTail⟩
      rw [parseWindow, noTumbling]
      simp only [noSliding, keyword]
      exact parsed

/-! ## Clauses -/

/-- An optional clause is read where its keyword cannot be taken from what follows. -/
theorem parseClause_reads {α γ : Type} (keyword : String) (word : isWord keyword.toList = true)
    {clause : List Char → Parsed α} {value : γ → α} {text : γ → List Char} (without : α)
    {tail : List Char} (each : ∀ c, Reads clause (value c) (text c) tail)
    (absent : startsWithCase (skipSpace tail) keyword.toList = false) (choice : Option γ) :
    Reads (parseClause keyword clause without) ((choice.map value).getD without)
      (clauseText keyword text choice) tail := by
  intro pos here
  cases choice with
  | none =>
      refine ⟨skipSpace pos, ?_, At.skipped here⟩
      have other : startsWithCase (skipSpace pos) keyword.toList = false := by
        rw [here]
        exact absent
      rw [parseClause, matchKeyword_absent other]
      rfl
  | some c =>
      have atKeyword : At pos (keyword.toList ++ (' ' :: (text c ++ tail))) := by
        apply At.of_blank
        have whole : At pos (' ' :: (keyword.toList ++ ' ' :: text c) ++ tail) := here
        rw [List.cons_append, List.append_assoc, List.cons_append] at whole
        exact whole
      have found : matchKeyword keyword.toList pos = (true, ' ' :: (text c ++ tail)) :=
        matchKeyword_read word atKeyword rfl
      obtain ⟨pos', parsed, atTail⟩ := each c _ (At.refl (text c ++ tail)).blank
      refine ⟨pos', ?_, atTail⟩
      rw [parseClause, found]
      exact parsed

/-- A blank keeps what follows from being part of a name. -/
theorem endsName_blankOrEnd {tail : List Char} (blank : BlankOrEnd tail) : EndsName tail := by
  cases tail with
  | nil =>
      rintro c ⟨⟩
  | cons d rest =>
      rintro c ⟨⟩
      exact isspace_not_fieldChar blank

theorem names_read (message : String) (first : Identifier) (fields : List Identifier)
    {tail : List Char} (ends : EndsName tail) (noComma : lead tail ≠ some ',') :
    Reads (commaList (parseField message)) (first.name :: fields.map Identifier.name)
      (namesText first fields) tail :=
  commaList_reads (fun field _ stops => parseField_reads message field stops) endsName_comma ends
    noComma first fields

theorem groupBy_reads (groupBy : List Identifier) {tail : List Char} (blank : BlankOrEnd tail)
    (noComma : lead tail ≠ some ',')
    (absent : startsWithCase (skipSpace tail) "by".toList = false) :
    Reads (parseClause "by" (commaList (parseField "expected field after 'by'")) [])
      (groupBy.map Identifier.name) (groupByText groupBy) tail := by
  have clause := parseClause_reads "by" (by decide) []
    (fun names : Identifier × List Identifier => names_read "expected field after 'by'" names.1
      names.2 (endsName_blankOrEnd blank) noComma) absent
  cases groupBy with
  | nil => exact clause none
  | cons first fields => exact clause (some (first, fields))

theorem showFields_read (first : Identifier) (fields : List Identifier) {tail : List Char}
    (blank : BlankOrEnd tail) (noComma : lead tail ≠ some ',') :
    Reads parseShowFields (first.name :: fields.map Identifier.name) (namesText first fields)
      tail := by
  have ends : EndsName tail := endsName_blankOrEnd blank
  have later : EndsName (commaText Identifier.chars fields ++ tail) := by
    cases fields with
    | nil => exact ends
    | cons field fields => exact endsName_comma _
  have reads : Reads parseShowFields (first.name :: fields.map Identifier.name)
      (first.chars ++ (commaText Identifier.chars fields ++ [])) tail := by
    apply Reads.andThen (parseField_reads _ first (by rw [List.append_nil]; exact later))
    apply Reads.andThen (commaLoop_afterFirst
      (fun field _ stops => parseField_reads "expected field in show list" field stops)
      endsName_comma ends noComma fields)
    exact Reads.ok _ tail
  rw [List.append_nil] at reads
  exact reads

theorem FuncTree.lead_ne (func : FuncTree) (tail : List Char) :
    lead (func.text ++ tail) ≠ some '(' := by
  cases func with
  | count =>
      have leads : lead (FuncTree.count.text ++ tail) = some 'c' := rfl
      rw [leads]
      decide
  | ofField func field =>
      have leads : lead ((FuncTree.ofField func field).text ++ tail) =
          func.name.head?.map Char.toLower := by
        cases func <;> rfl
      rw [leads]
      cases func <;> decide
  | percentile field value =>
      have leads : lead ((FuncTree.percentile field value).text ++ tail) = some 'p' := rfl
      rw [leads]
      decide

theorem parseFunctions_reads (first : FuncTree) (funcs : List FuncTree) {tail : List Char}
    (noComma : lead tail ≠ some ',') :
    Reads parseFunctions (first.func :: funcs.map FuncTree.func)
      (first.text ++ commaText FuncTree.text funcs) tail := by
  intro pos here
  have noParen : lead pos ≠ some ('(' : Char).toLower := by
    rw [here.lead, List.append_assoc]
    exact first.lead_ne _
  obtain ⟨pos', parsed, atTail⟩ := commaList_reads
    (fun func tail (_ : True) => parseAggFunction_reads func tail) (fun _ => trivial) trivial
    noComma first funcs (skipSpace pos) here.skipped
  refine ⟨pos', ?_, atTail⟩
  rw [parseFunctions, consumeChar_other noParen]
  exact parsed

/-- A list of names is not taken for `*`. -/
theorem Identifier.noStar (first : Identifier) (fields : List Identifier) (tail : List Char) :
    consumeChar '*' (' ' :: (namesText first fields ++ tail)) =
      (false, skipSpace (' ' :: (namesText first fields ++ tail))) := by
  obtain ⟨c, rest, shape, opens, -⟩ := first.shape
  apply consumeChar_absent
  intro more start
  rw [skipSpace_blank, namesText, shape, List.append_assoc, List.cons_append,
    skipSpace_of_head _ (startsName_visible opens)] at start
  rw [(List.cons.inj start).1] at opens
  exact absurd opens (by decide)

/-- A missing duration is the default one; a written one is not zero. -/
theorem within_default (within : Option Duration) :
    (if (within.map Subtype.val).getD 0 = 0 then defaultCorrelateWithinMs
      else (within.map Subtype.val).getD 0) =
        (within.map Subtype.val).getD defaultCorrelateWithinMs := by
  cases within with
  | none => rfl
  | some duration => exact if_neg (Nat.pos_iff_ne_zero.mp duration.property.1)

/-! ## What ends a clause -/

/-- What follows a stage: the end of the input, or the pipe in front of the next stage. -/
def StageEnd (tail : List Char) : Prop := tail = [] ∨ ∃ rest, tail = ' ' :: '|' :: rest

theorem StageEnd.endsFilter {tail : List Char} (ends : StageEnd tail)
    (keywords : List (List Char)) : EndsFilter keywords tail := by
  rcases ends with rfl | ⟨rest, rfl⟩
  · exact Or.inl rfl
  · exact Or.inr ⟨'|' :: rest, rfl, Or.inl ⟨rest, rfl⟩⟩

theorem StageEnd.blankOrEnd {tail : List Char} (ends : StageEnd tail) : BlankOrEnd tail :=
  (ends.endsFilter []).blankOrEnd

theorem StageEnd.lead {tail : List Char} (ends : StageEnd tail) :
    lead tail = none ∨ lead tail = some '|' := by
  rcases ends with rfl | ⟨rest, rfl⟩
  · exact Or.inl rfl
  · exact Or.inr rfl

theorem StageEnd.noComma {tail : List Char} (ends : StageEnd tail) :
    NqlParser.lead tail ≠ some ',' := by
  rcases ends.lead with leads | leads
  · rw [leads]
    decide
  · rw [leads]
    decide

/-- No keyword is found at the end of a stage. -/
theorem StageEnd.absent {tail : List Char} (ends : StageEnd tail) {keyword : List Char} {c : Char}
    (starts : keyword.head? = some c) (noPipe : (c.toLower == '|') = false) :
    startsWithCase (skipSpace tail) keyword = false := by
  cases keyword with
  | nil => cases starts
  | cons d keyword =>
      obtain rfl : d = c := Option.some.inj starts
      rcases ends with rfl | ⟨rest, rfl⟩
      · rfl
      · have start : skipSpace (' ' :: '|' :: rest) = '|' :: rest := rfl
        rw [start, startsWithCase_cons]
        have differs : (d.toLower == ('|' : Char).toLower) = false := noPipe
        rw [differs, Bool.false_and]

theorem keywordAtPosition_here (keyword rest : List Char) :
    keywordAtPosition none (keyword ++ ' ' :: rest) keyword = true := by
  rw [keywordAtPosition, startsWithCase_self, List.drop_left]
  rfl

/-- A clause ends the filter in front of it. -/
theorem clauseText_ends {γ : Type} {keywords : List (List Char)} {keyword : String}
    (mem : keyword.toList ∈ keywords) (text : γ → List Char) (choice : Option γ)
    {tail : List Char} (ends : EndsFilter keywords tail) :
    EndsFilter keywords (clauseText keyword text choice ++ tail) := by
  cases choice with
  | none => exact ends
  | some c =>
      refine Or.inr ⟨keyword.toList ++ ' ' :: (text c ++ tail), ?_, Or.inr ⟨_, mem, ?_⟩⟩
      · rw [clauseText, List.cons_append, List.append_assoc, List.cons_append]
      · exact keywordAtPosition_here _ _

/-- What can follow the functions and the fields of an aggregation. -/
structure ClauseEnd (tail : List Char) : Prop where
  blank : BlankOrEnd tail
  noComma : lead tail ≠ some ','
  noBy : startsWithCase (skipSpace tail) "by".toList = false

theorem StageEnd.clauseEnd {tail : List Char} (ends : StageEnd tail) : ClauseEnd tail :=
  ⟨ends.blankOrEnd, ends.noComma, ends.absent rfl rfl⟩

theorem clauseEnd_window (text : WindowTree → List Char) (window : Option WindowTree)
    {tail : List Char} (ends : ClauseEnd tail) :
    ClauseEnd (clauseText "window" text window ++ tail) := by
  cases window with
  | none => exact ends
  | some window => exact ⟨(by decide : isspace ' ' = true), (by decide : some 'w' ≠ some ','), rfl⟩

theorem window_noWhere (text : WindowTree → List Char) (window : Option WindowTree)
    {tail : List Char} (ends : StageEnd tail) :
    startsWithCase (skipSpace (clauseText "window" text window ++ tail)) "where".toList =
      false := by
  cases window with
  | none => exact ends.absent rfl rfl
  | some window => rfl

theorem groupByText_noComma (groupBy : List Identifier) {tail : List Char}
    (ends : ClauseEnd tail) : lead (groupByText groupBy ++ tail) ≠ some ',' := by
  cases groupBy with
  | nil => exact ends.noComma
  | cons first fields => exact (by decide : some 'b' ≠ some ',')

end NqlParser

end Nblex
