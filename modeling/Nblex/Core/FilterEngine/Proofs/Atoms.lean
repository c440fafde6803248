import Nblex.Core.FilterEngine.Parser
import Nblex.Core.FilterEngine.Eval
import Nblex.Misc.Numerals

/-!
# Comparison atoms

The text of a comparison and what the parser makes of it in front of any later text. Only the
value of an integer literal depends on the later text: a dot anywhere in it makes the literal a
real.
-/

namespace Nblex

/-! ## Texts -/

/-- What can stand between double quotes: each backslash takes the character after it along. -/
inductive Quoted : List Char → Prop where
  | nil : Quoted []
  | plain {c : Char} {body : List Char} (noQuote : c ≠ '"') (noBackslash : c ≠ '\\')
      (rest : Quoted body) : Quoted (c :: body)
  | escaped {c : Char} {body : List Char} (rest : Quoted body) : Quoted ('\\' :: c :: body)

theorem quoted_plain {body : List Char} (plain : ∀ c ∈ body, c ≠ '"' ∧ c ≠ '\\') :
    Quoted body := by
  induction body with
  | nil => exact .nil
  | cons c body ih =>
      obtain ⟨noQuote, noBackslash⟩ := plain c List.mem_cons_self
      exact .plain noQuote noBackslash (ih fun d member => plain d (List.mem_cons_of_mem c member))

/-- A literal as it is written. -/
inductive FilterLiteral where
  | string (body : List Char)
  | integer (negative : Bool) (digits : List Char)
  | decimal (negative : Bool) (whole fraction : List Char)
  | bool (b : Bool)
  deriving DecidableEq

/-- The spellings of literals. -/
def FilterLiteral.Valid : FilterLiteral → Prop
  | .string body => Quoted body
  | .integer _ digits => Digits digits
  | .decimal _ whole fraction => Digits whole ∧ Digits fraction
  | .bool _ => True

/-- The text of a literal. -/
def FilterLiteral.text : FilterLiteral → List Char
  | .string body => '"' :: (body ++ ['"'])
  | .integer negative digits => signText negative ++ digits
  | .decimal negative whole fraction => signText negative ++ (whole ++ '.' :: fraction)
  | .bool true => ['t', 'r', 'u', 'e']
  | .bool false => ['f', 'a', 'l', 's', 'e']

/-- The comparison operators: `==`, `!=`, `<`, `<=`, `>` and `>=`. -/
def FilterOp.isComparison : FilterOp → Bool
  | .eq | .ne | .lt | .le | .gt | .ge => true
  | .patMatch | .patNmatch | .isIn | .contains => false

/-- The text of an operator. -/
def FilterOp.text : FilterOp → List Char
  | .eq => ['=', '=']
  | .ne => ['!', '=']
  | .lt => ['<']
  | .le => ['<', '=']
  | .gt => ['>']
  | .ge => ['>', '=']
  | .patMatch => ['=', '~']
  | .patNmatch => ['!', '~']
  | .isIn => ['i', 'n']
  | .contains => ['c', 'o', 'n', 't', 'a', 'i', 'n', 's']

/-- A comparison of a field with a literal. -/
structure FilterAtom where
  field : List Char
  op : FilterOp
  literal : FilterLiteral
  fieldNonempty : field ≠ []
  fieldChars : ∀ c ∈ field, isFieldChar c = true
  comparison : op.isComparison = true
  valid : literal.Valid

theorem isComparison_eq : FilterOp.eq.isComparison = true := rfl

/-- The text of a comparison. -/
def FilterAtom.text (a : FilterAtom) : List Char :=
  a.field ++ ' ' :: (a.op.text ++ ' ' :: a.literal.text)

/-- What may follow a comparison: nothing, a blank or a closing parenthesis. -/
def Stops (later : List Char) : Prop :=
  later = [] ∨ ∃ rest, later = ' ' :: rest ∨ later = ')' :: rest

/-! ## Values -/

/-- The value the parser gives a literal in front of `later`. -/
def FilterLiteral.valueBefore (later : List Char) : FilterLiteral → FilterValue
  | .string body => .string (String.ofList body)
  | .integer negative digits =>
      if later.contains '.' then .real (signed negative (decimalValue digits : ℚ))
      else .integer (toInt32 (clampLong (signed negative (decimalValue digits : Int))))
  | .decimal negative whole fraction =>
      .real (signed negative ((decimalValue (whole ++ fraction) : ℚ) / 10 ^ fraction.length))
  | .bool b => .bool b

/-! ## Scanning -/

theorem scanQuoted_quoted {body : List Char} (quoted : Quoted body) (rest : List Char) :
    scanQuoted (body ++ '"' :: rest) = (body, '"' :: rest) := by
  induction quoted with
  | nil => rfl
  | @plain c body noQuote noBackslash quoted ih =>
      rw [List.cons_append, scanQuoted]
      · rw [ih]
      · exact noQuote
      · intro c' rest' isBackslash
        exact absurd isBackslash noBackslash
  | @escaped c body quoted ih =>
      rw [List.cons_append, List.cons_append, scanQuoted, ih]

theorem Stops.head {later : List Char} (stops : Stops later) {p : Char → Bool}
    (blank : p ' ' = false) (close : p ')' = false) : ∀ c ∈ later.head?, p c = false := by
  intro c member
  rcases stops with rfl | ⟨rest, rfl | rfl⟩
  · cases member
  · rw [← Option.some.inj member]
    exact blank
  · rw [← Option.some.inj member]
    exact close

/-! ## Values in a text -/

theorem startsNumber_number (negative : Bool) {digits : List Char} (number : Digits digits)
    (rest : List Char) : startsNumber (signText negative ++ (digits ++ rest)) = true := by
  obtain ⟨nonempty, all⟩ := number
  cases digits with
  | nil => exact absurd rfl nonempty
  | cons c digits =>
      have digit := all c List.mem_cons_self
      cases negative with
      | true => exact digit
      | false =>
          have noMinus := (digit_plain digit).2.1
          show startsNumber (c :: (digits ++ rest)) = true
          rw [startsNumber]
          · exact digit
          · intro d tl isMinus
            exact absurd isMinus noMinus

/-- A number does not start with a quote. -/
theorem number_no_quote (negative : Bool) {digits : List Char} (number : Digits digits)
    (rest tl : List Char) : signText negative ++ (digits ++ rest) ≠ '"' :: tl := by
  obtain ⟨nonempty, all⟩ := number
  cases digits with
  | nil => exact absurd rfl nonempty
  | cons c digits =>
      intro same
      cases negative with
      | true => cases (List.cons.inj same).1
      | false => exact (digit_plain (all c List.mem_cons_self)).2.2.2.1 (List.cons.inj same).1

theorem number_no_dot (negative : Bool) {digits : List Char} (number : Digits digits)
    (rest : List Char) :
    (signText negative ++ (digits ++ rest)).contains '.' = rest.contains '.' := by
  have noDot : '.' ∉ digits := by
    intro member
    exact absurd (number.2 _ member) (by decide)
  cases negative with
  | true => simp [signText, noDot]
  | false => simp [signText, noDot]

/-- The parser on a literal, in front of anything that ends it. -/
theorem parseFilterValue_literal [Pcre2] (op : FilterOp) {literal : FilterLiteral}
    (valid : literal.Valid) {later : List Char} (stops : Stops later) :
    parseFilterValue op (literal.text ++ later) = (literal.valueBefore later, none, later) := by
  have notDigit : ∀ c ∈ later.head?, isdigit c = false := stops.head rfl rfl
  have stopsAt : ∀ p : Char → Bool, p ' ' = false → p ')' = false →
      ∀ c ∈ later.head?, p c = false := fun p blank close => stops.head blank close
  have noHex : ∀ c ∈ later.head?, c.toLower ≠ 'x' := by
    intro c member
    simpa using stopsAt (fun c => decide (c.toLower = 'x')) (by decide) (by decide) c member
  have noExponent : ∀ c ∈ later.head?, c.toLower ≠ 'e' := by
    intro c member
    simpa using stopsAt (fun c => decide (c.toLower = 'e')) (by decide) (by decide) c member
  have noDot : ∀ c ∈ later.head?, c ≠ '.' := by
    intro c member
    simpa using stopsAt (fun c => decide (c = '.')) (by decide) (by decide) c member
  cases literal with
  | string body =>
      show parseFilterValue op ('"' :: ((body ++ ['"']) ++ later)) = _
      rw [parseFilterValue, List.append_assoc, List.singleton_append, scanQuoted_quoted valid]
      rfl
  | integer negative digits =>
      have number : Digits digits := valid
      have noQuote := number_no_quote negative number later
      show parseFilterValue op ((signText negative ++ digits) ++ later) = _
      rw [List.append_assoc, parseFilterValue]
      · rw [startsNumber_number negative number, if_pos rfl, number_no_dot negative number,
          FilterLiteral.valueBefore]
        by_cases dotted : later.contains '.' = true
        · rw [if_pos dotted, if_pos dotted, strtod_of_strtodIn negative number noHex
            (strtodIn_whole number
              (fun c member => ⟨notDigit c member, noDot c member, noExponent c member⟩))]
        · rw [if_neg dotted, if_neg dotted, strtol_number negative number notDigit]
      · intro rest isQuote
        exact noQuote rest isQuote
  | decimal negative whole fraction =>
      obtain ⟨number, decimals⟩ : Digits whole ∧ Digits fraction := valid
      have text : (FilterLiteral.decimal negative whole fraction).text ++ later =
          signText negative ++ (whole ++ ('.' :: (fraction ++ later))) := by
        simp [FilterLiteral.text]
      have noQuote := number_no_quote negative number ('.' :: (fraction ++ later))
      rw [text, parseFilterValue]
      · have dotted : ('.' :: (fraction ++ later)).contains '.' = true := by simp
        have dotNoHex : ∀ c ∈ ('.' :: (fraction ++ later)).head?, c.toLower ≠ 'x' := by
          intro c member
          rw [← Option.some.inj member]
          decide
        rw [startsNumber_number negative number, if_pos rfl, number_no_dot negative number,
          if_pos dotted, strtod_of_strtodIn negative number dotNoHex
            (strtodIn_fraction number decimals
              (fun c member => ⟨notDigit c member, noExponent c member⟩))]
        rfl
      · intro rest isQuote
        exact noQuote rest isQuote
  | bool b =>
      cases b with
      | true => rfl
      | false => rfl

/-! ## Fields -/

/-- The `NOT`s a name begins with, as the parser reads them, and what is left of the name. -/
def notPrefix : List Char → Nat × List Char
  | 'N' :: 'O' :: 'T' :: rest => ((notPrefix rest).1 + 1, (notPrefix rest).2)
  | 'n' :: 'o' :: 't' :: rest => ((notPrefix rest).1 + 1, (notPrefix rest).2)
  | field => (0, field)

theorem notPrefix_atNot {field : List Char} (negated : atNot field = true) :
    notPrefix field = ((notPrefix (field.drop 3)).1 + 1, (notPrefix (field.drop 3)).2) := by
  rcases Bool.or_eq_true_iff.mp negated with upper | lower
  · obtain ⟨rest, rfl⟩ := startsWith_iff.mp upper
    rfl
  · obtain ⟨rest, rfl⟩ := startsWith_iff.mp lower
    rfl

theorem notPrefix_plain {field : List Char} (plain : atNot field = false) :
    notPrefix field = (0, field) := by
  unfold notPrefix
  split
  · cases plain
  · cases plain
  · rfl

/-- A node under a number of `NOT`s. -/
def negated : Nat → FilterNode → FilterNode
  | 0, node => node
  | n + 1, node => .not (negated n node)

/-- The node of a comparison of a name in front of `later`; a name that is all `NOT`s is no
    comparison. -/
def comparisonNode (name : List Char) (op : FilterOp) (literal : FilterLiteral)
    (later : List Char) : Option FilterNode :=
  if (notPrefix name).2 = [] then none
  else some (negated (notPrefix name).1
    (.expr ⟨String.ofList (notPrefix name).2, op, literal.valueBefore later, none⟩))

/-- The node of a comparison in front of `later`. -/
def FilterAtom.node (a : FilterAtom) (later : List Char) : Option FilterNode :=
  comparisonNode a.field a.op a.literal later

theorem fieldChar_plain {c : Char} (fieldChar : isFieldChar c = true) :
    isspace c = false ∧ c ≠ '(' ∧ c ≠ ' ' := by
  have range : 46 ≤ c.toNat := by
    unfold isFieldChar isalnum Char.isAlphanum Char.isAlpha Char.isUpper Char.isLower
      Char.isDigit at fieldChar
    simp only [Bool.or_eq_true, Bool.and_eq_true, decide_eq_true_eq, ge_iff_le,
      UInt32.le_iff_toNat_le, Char.toNat] at fieldChar ⊢
    rcases fieldChar with (((upper | lower) | digit) | rfl) | rfl
    · exact le_trans (by decide) upper.1
    · exact le_trans (by decide) lower.1
    · exact le_trans (by decide) digit.1
    · decide
    · decide
  refine ⟨?_, ?_, ?_⟩
  · have notBlank : c ≠ ' ' := by
      rintro rfl
      exact absurd range (by decide)
    have notControl : ¬ c.toNat ≤ 13 := by omega
    simp [isspace, notBlank, notControl]
  all_goals
    rintro rfl
    exact absurd range (by decide)

/-- A keyword is in front of a blank just when it is in the word before it. -/
theorem startsWith_word {keyword : List Char} (noBlank : ' ' ∉ keyword) (field rest : List Char) :
    startsWith (field ++ ' ' :: rest) keyword = startsWith field keyword := by
  induction keyword generalizing field with
  | nil =>
      cases field with
      | nil => rfl
      | cons c field => rfl
  | cons k keyword ih =>
      have other : k ≠ ' ' := fun same => noBlank (same ▸ List.mem_cons_self)
      have noBlank' : ' ' ∉ keyword := fun member => noBlank (List.mem_cons_of_mem _ member)
      cases field with
      | nil => simp [startsWith, List.isPrefixOf, other]
      | cons c field =>
          have rest' := ih noBlank' field
          simp only [startsWith] at rest' ⊢
          rw [List.cons_append, List.isPrefixOf_cons_cons, List.isPrefixOf_cons_cons, rest']

theorem atNot_word (field rest : List Char) : atNot (field ++ ' ' :: rest) = atNot field := by
  unfold atNot
  rw [startsWith_word (by decide), startsWith_word (by decide)]

theorem drop_word {field : List Char} (negated : atNot field = true) (rest : List Char) :
    (field ++ rest).drop 3 = field.drop 3 ++ rest := by
  rcases Bool.or_eq_true_iff.mp negated with upper | lower
  · obtain ⟨tail, rfl⟩ := startsWith_iff.mp upper
    rfl
  · obtain ⟨tail, rfl⟩ := startsWith_iff.mp lower
    rfl

theorem parseFilterOp_text {op : FilterOp} (comparison : op.isComparison = true)
    (rest : List Char) : parseFilterOp (op.text ++ ' ' :: rest) = some (op, ' ' :: rest) := by
  cases op with
  | eq | ne | lt | le | gt | ge => rfl
  | patMatch | patNmatch | isIn | contains => cases comparison

theorem skipSpace_opText {op : FilterOp} (comparison : op.isComparison = true)
    (rest : List Char) : skipSpace (op.text ++ rest) = op.text ++ rest := by
  cases op with
  | eq | ne | lt | le | gt | ge => rfl
  | patMatch | patNmatch | isIn | contains => cases comparison

theorem skipSpace_literal {literal : FilterLiteral} (valid : literal.Valid) (rest : List Char) :
    skipSpace (literal.text ++ rest) = literal.text ++ rest := by
  have number : ∀ (negative : Bool) {digits : List Char}, Digits digits → ∀ tl : List Char,
      skipSpace (signText negative ++ (digits ++ tl)) = signText negative ++ (digits ++ tl) := by
    intro negative digits number tl
    obtain ⟨nonempty, all⟩ := number
    cases digits with
    | nil => exact absurd rfl nonempty
    | cons c digits =>
        cases negative with
        | true => rfl
        | false => exact skipSpace_of_head _ (digit_plain (all c List.mem_cons_self)).1
  cases literal with
  | string body => rfl
  | integer negative digits =>
      have text := number negative valid rest
      simpa [FilterLiteral.text] using text
  | decimal negative whole fraction =>
      have text := number negative valid.1 ('.' :: (fraction ++ rest))
      simpa [FilterLiteral.text] using text
  | bool b =>
      cases b with
      | true => rfl
      | false => rfl

/-! ## Comparisons -/

section Comparisons

variable [Pcre2]

/-- Blanks in front of a term are skipped. -/
theorem parseFilterExpr_blank (fuel : Nat) (expr : List Char) :
    parseFilterExpr fuel (' ' :: expr) = parseFilterExpr fuel expr := by
  cases fuel with
  | zero => rfl
  | succ fuel => rw [parseFilterExpr, parseFilterExpr, skipSpace_blank]

/-- A term in parentheses. -/
theorem parseFilterExpr_paren (fuel : Nat) {expr rest : List Char}
    (paren : skipSpace expr = '(' :: rest) :
    parseFilterExpr (fuel + 1) expr =
      (parseFilterExpr fuel rest).map (fun read => (read.1, skipClose (skipSpace read.2))) := by
  rw [parseFilterExpr, paren]
  split
  · next tail isParen =>
    obtain ⟨-, rfl⟩ := List.cons.inj isParen
    cases parseFilterExpr fuel rest with
    | none => rfl
    | some read => rfl
  · next noParen => exact absurd rfl (noParen rest)

/-- A term that is not in parentheses: a `NOT` and a term, or a comparison. -/
theorem parseFilterExpr_noParen (fuel : Nat) {expr : List Char}
    (noParen : ∀ rest, skipSpace expr ≠ '(' :: rest) :
    parseFilterExpr (fuel + 1) expr =
      if atNot (skipSpace expr) then
        (parseFilterExpr fuel ((skipSpace expr).drop 3)).map (fun read => (.not read.1, read.2))
      else parseFilterAtom (skipSpace expr) := by
  rw [parseFilterExpr]
  split
  · next tail isParen => exact absurd isParen (noParen tail)
  · cases parseFilterExpr fuel ((skipSpace expr).drop 3) with
    | none => rfl
    | some read => rfl

/-- A term whose first character is neither a blank nor a parenthesis. -/
theorem parseFilterExpr_word (fuel : Nat) {c : Char} (rest : List Char)
    (noSpace : isspace c = false) (noParen : c ≠ '(') :
    parseFilterExpr (fuel + 1) (c :: rest) =
      if atNot (c :: rest) then
        (parseFilterExpr fuel ((c :: rest).drop 3)).map (fun read => (.not read.1, read.2))
      else parseFilterAtom (c :: rest) := by
  have start : skipSpace (c :: rest) = c :: rest := skipSpace_of_head _ noSpace
  have notOpen : ∀ tail, skipSpace (c :: rest) ≠ '(' :: tail := by
    intro tail isParen
    rw [start] at isParen
    exact noParen (List.cons.inj isParen).1
  rw [parseFilterExpr_noParen fuel notOpen, start]

/-- A name without a `NOT` in front, an operator and a literal. -/
theorem parseFilterAtom_comparison {name : List Char} (nonempty : name ≠ [])
    (chars : ∀ c ∈ name, isFieldChar c = true) {op : FilterOp}
    (comparison : op.isComparison = true) {literal : FilterLiteral} (valid : literal.Valid)
    {later : List Char} (stops : Stops later) :
    parseFilterAtom (name ++ ' ' :: (op.text ++ ' ' :: (literal.text ++ later))) =
      some (.expr ⟨String.ofList name, op, literal.valueBefore later, none⟩, later) := by
  have blank : ∀ c ∈ (' ' :: (op.text ++ ' ' :: (literal.text ++ later))).head?,
      isFieldChar c = false := by
    intro c member
    rw [← Option.some.inj member]
    rfl
  obtain ⟨taken, dropped⟩ := takeWhile_stop chars blank
  rw [parseFilterAtom, taken, dropped, skipSpace_blank, skipSpace_opText comparison,
    parseFilterOp_text comparison]
  cases name with
  | nil => exact absurd rfl nonempty
  | cons c name =>
      simp only [skipSpace_blank, skipSpace_literal valid, parseFilterValue_literal op valid stops]

/-- A name, which may begin with `NOT`s, an operator and a literal. -/
theorem parseFilterExpr_comparison {op : FilterOp} (comparison : op.isComparison = true)
    {literal : FilterLiteral} (valid : literal.Valid) {later : List Char} (stops : Stops later) :
    ∀ (fuel : Nat) (name : List Char), (∀ c ∈ name, isFieldChar c = true) →
      name.length < fuel →
      parseFilterExpr fuel (name ++ ' ' :: (op.text ++ ' ' :: (literal.text ++ later))) =
        (comparisonNode name op literal later).map (fun node => (node, later)) := by
  intro fuel
  induction fuel with
  | zero =>
      intro name chars enough
      exact absurd enough (Nat.not_lt_zero _)
  | succ fuel ih =>
      intro name chars enough
      cases name with
      | nil =>
          rw [List.nil_append, parseFilterExpr_blank, parseFilterExpr, skipSpace_opText comparison]
          cases op with
          | eq | ne | lt | le | gt | ge => rfl
          | patMatch | patNmatch | isIn | contains => cases comparison
      | cons c name =>
          obtain ⟨noSpace, noParen, -⟩ := fieldChar_plain (chars c List.mem_cons_self)
          rw [List.cons_append, parseFilterExpr_word fuel _ noSpace noParen, ← List.cons_append,
            atNot_word]
          by_cases negates : atNot (c :: name) = true
          · rw [if_pos negates, drop_word negates]
            have chars' : ∀ d ∈ (c :: name).drop 3, isFieldChar d = true :=
              fun d member => chars d (List.mem_of_mem_drop member)
            have enough' : ((c :: name).drop 3).length < fuel := by
              rw [List.length_drop]
              simp only [List.length_cons] at enough ⊢
              omega
            rw [ih _ chars' enough', comparisonNode, comparisonNode, notPrefix_atNot negates]
            by_cases nothing : (notPrefix ((c :: name).drop 3)).2 = []
            · simp only [if_pos nothing, Option.map_none]
            · simp only [if_neg nothing, Option.map_some]
              rfl
          · have plain : atNot (c :: name) = false := by simpa using negates
            rw [if_neg negates, comparisonNode, notPrefix_plain plain,
              if_neg (List.cons_ne_nil c name), parseFilterAtom_comparison
                (List.cons_ne_nil c name) chars comparison valid stops]
            rfl

/-- The parser on a comparison, in front of anything that ends it. -/
theorem parseFilterExpr_atom (a : FilterAtom) {later : List Char} (stops : Stops later)
    {fuel : Nat} (enough : a.field.length < fuel) :
    parseFilterExpr fuel (a.text ++ later) =
      (a.node later).map (fun node => (node, later)) := by
  have text : a.text ++ later =
      a.field ++ ' ' :: (a.op.text ++ ' ' :: (a.literal.text ++ later)) := by
    simp [FilterAtom.text]
  rw [text]
  exact parseFilterExpr_comparison a.comparison a.valid stops fuel a.field a.fieldChars enough

end Comparisons

end Nblex
