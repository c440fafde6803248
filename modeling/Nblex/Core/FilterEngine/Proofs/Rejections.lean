import Nblex.Core.FilterEngine.Grammar
import Nblex.Core.FilterEngine.Proofs.Groups
import Nblex.Core.FilterEngine.Proofs.Spaces

/-!
# Which filters are rejected

The parser gives no filter exactly where a term is missing at the start or behind a connective it
reaches. Whatever else is wrong with a text, a filter is made of the part that could be read.
-/

namespace Nblex

/-- A quoted text ends at a quote or at the end. -/
theorem scanQuoted_end (pos : List Char) :
    (scanQuoted pos).2 = [] ∨ ∃ rest, (scanQuoted pos).2 = '"' :: rest := by
  fun_induction scanQuoted pos with
  | case1 => exact Or.inl rfl
  | case2 rest => exact Or.inr ⟨rest, rfl⟩
  | case3 c rest body tail read ih =>
      rw [read] at ih
      exact ih
  | case4 c rest noQuote noEscape body tail read ih =>
      rw [read] at ih
      exact ih

theorem noParen_of_field {pos : List Char} (field : (skipSpace pos).takeWhile isFieldChar ≠ [])
    (rest : List Char) : skipSpace pos ≠ '(' :: rest := by
  intro paren
  rw [paren] at field
  exact field rfl

theorem noParen_of_negation {pos : List Char} (negation : atNot (skipSpace pos) = true)
    (rest : List Char) : skipSpace pos ≠ '(' :: rest := by
  intro paren
  rw [paren] at negation
  exact absurd negation (by simp [atNot, startsWith])

/-- A `NOT` could be a field. -/
theorem noNegation_of_noField {pos : List Char} (noField : pos.takeWhile isFieldChar = []) :
    atNot pos = false := by
  apply Bool.eq_false_iff.mpr
  intro negation
  obtain found | found := Bool.or_eq_true_iff.mp negation
  · obtain ⟨rest, rfl⟩ := startsWith_iff.mp found
    exact absurd noField (by simp [isFieldChar, isalnum])
  · obtain ⟨rest, rfl⟩ := startsWith_iff.mp found
    exact absurd noField (by simp [isFieldChar, isalnum])

/-- There is a term or there is none. -/
theorem termMissing_or_termRead (pos : List Char) :
    TermMissing pos ∨ ∃ after, TermRead pos after := by
  induction length : pos.length using Nat.strong_induction_on generalizing pos with
  | _ n ih =>
      subst length
      have shorter := skipSpace_length_le pos
      by_cases paren : ∃ rest, skipSpace pos = '(' :: rest
      · obtain ⟨rest, paren⟩ := paren
        rw [paren, List.length_cons] at shorter
        obtain missing | ⟨after, inner⟩ := ih rest.length (by omega) rest rfl
        · exact Or.inl (.group paren missing)
        · exact Or.inr ⟨_, .group paren inner⟩
      by_cases negation : atNot (skipSpace pos) = true
      · have three := atNot_length negation
        obtain missing | ⟨after, operand⟩ :=
          ih ((skipSpace pos).drop 3).length (by rw [List.length_drop]; omega) _ rfl
        · exact Or.inl (.not negation missing)
        · exact Or.inr ⟨_, .not negation operand⟩
      have noNegation : atNot (skipSpace pos) = false := Bool.eq_false_iff.mpr negation
      by_cases field : (skipSpace pos).takeWhile isFieldChar = []
      · refine Or.inl (.field ?_ field)
        intro head
        exact paren (List.head?_eq_some_iff.mp head)
      · cases operator : parseFilterOp (skipSpace ((skipSpace pos).dropWhile isFieldChar)) with
        | none => exact Or.inl (.operator noNegation field operator)
        | some found => exact Or.inr ⟨_, .comparison noNegation field operator⟩

section Terms

variable [Pcre2]

theorem parseFilterValue_literalEnd (op : FilterOp) (pos : List Char) :
    (parseFilterValue op pos).2.2 = literalEnd op pos := by
  by_cases quoted : ∃ rest, pos = '"' :: rest
  · obtain ⟨rest, rfl⟩ := quoted
    rw [parseFilterValue, literalEnd]
    split
    · next read => rw [read, List.drop_one, List.tail_cons]
    · next body tail noClose read =>
      obtain ended | ⟨later, closed⟩ := scanQuoted_end rest
      · rw [read] at ended ⊢
        rw [ended]
        rfl
      · rw [read] at closed
        exact absurd closed (noClose later)
  · rw [parseFilterValue_plain op (fun rest same => quoted ⟨rest, same⟩), literalEnd]
    · split_ifs <;> rfl
    · intro rest same
      exact quoted ⟨rest, same⟩

theorem parseFilterAtom_noField {pos : List Char} (noField : pos.takeWhile isFieldChar = []) :
    parseFilterAtom pos = none := by
  rw [parseFilterAtom, noField]

theorem parseFilterAtom_noOperator {pos : List Char}
    (noOperator : parseFilterOp (skipSpace (pos.dropWhile isFieldChar)) = none) :
    parseFilterAtom pos = none := by
  rw [parseFilterAtom, noOperator]
  split <;> rfl

theorem parseFilterAtom_operator {pos rest : List Char} {op : FilterOp}
    (field : pos.takeWhile isFieldChar ≠ [])
    (operator : parseFilterOp (skipSpace (pos.dropWhile isFieldChar)) = some (op, rest)) :
    ∃ node, parseFilterAtom pos = some (node, literalEnd op (skipSpace rest)) := by
  rw [parseFilterAtom, operator, ← parseFilterValue_literalEnd]
  split
  · next noField => exact absurd noField field
  · exact ⟨_, rfl⟩

/-- Without a term there is nothing to be read. -/
theorem TermMissing.none {pos : List Char} (missing : TermMissing pos) (fuel : Nat) :
    parseFilterExpr fuel pos = none := by
  induction missing generalizing fuel with
  | group paren missing ih =>
      cases fuel with
      | zero => rfl
      | succ fuel => rw [parseFilterExpr_paren fuel paren, ih, Option.map_none]
  | not negation missing ih =>
      cases fuel with
      | zero => rfl
      | succ fuel =>
          rw [parseFilterExpr_noParen fuel (noParen_of_negation negation), if_pos negation, ih,
            Option.map_none]
  | @field pos noParen noField =>
      cases fuel with
      | zero => rfl
      | succ fuel =>
          have noGroup : ∀ rest, skipSpace pos ≠ '(' :: rest := by
            intro rest paren
            rw [paren] at noParen
            exact noParen rfl
          rw [parseFilterExpr_noParen fuel noGroup,
            if_neg (by simp [noNegation_of_noField noField]), parseFilterAtom_noField noField]
  | operator noNegation field noOperator =>
      cases fuel with
      | zero => rfl
      | succ fuel =>
          rw [parseFilterExpr_noParen fuel (noParen_of_field field), if_neg (by simp [noNegation]),
            parseFilterAtom_noOperator noOperator]

/-- A term that is there is read up to its end. -/
theorem TermRead.some {pos after : List Char} (term : TermRead pos after) (fuel : Nat)
    (enough : pos.length < fuel) : ∃ node, parseFilterExpr fuel pos = some (node, after) := by
  induction term generalizing fuel with
  | @group pos rest after paren inner ih =>
      obtain _ | fuel := fuel
      · exact absurd enough (Nat.not_lt_zero _)
      · have shorter := skipSpace_length_le pos
        rw [paren, List.length_cons] at shorter
        obtain ⟨node, read⟩ := ih fuel (by omega)
        exact ⟨node, by rw [parseFilterExpr_paren fuel paren, read, Option.map_some]⟩
  | @not pos after negation operand ih =>
      obtain _ | fuel := fuel
      · exact absurd enough (Nat.not_lt_zero _)
      · have shorter := skipSpace_length_le pos
        have three := atNot_length negation
        obtain ⟨node, read⟩ := ih fuel (by rw [List.length_drop]; omega)
        refine ⟨.not node, ?_⟩
        rw [parseFilterExpr_noParen fuel (noParen_of_negation negation), if_pos negation, read,
          Option.map_some]
  | @comparison pos rest op noNegation field operator =>
      obtain _ | fuel := fuel
      · exact absurd enough (Nat.not_lt_zero _)
      · obtain ⟨node, read⟩ := parseFilterAtom_operator field operator
        refine ⟨node, ?_⟩
        rw [parseFilterExpr_noParen fuel (noParen_of_field field), if_neg (by simp [noNegation]),
          read]

/-- Behind a connective a text is rejected on which the loop gives up. -/
theorem parseFilterLoop_rejected {fuel : Nat} {left : FilterNode} {pos : List Char}
    (enough : pos.length < fuel) (gives : parseFilterLoop fuel left pos = none) :
    ∃ node next, parseConnective (skipSpace pos) = some (node, next) ∧ RejectedFilter next := by
  induction fuel generalizing left pos with
  | zero => exact absurd enough (Nat.not_lt_zero _)
  | succ fuel ih =>
      rw [parseFilterLoop] at gives
      cases connective : parseConnective (skipSpace pos) with
      | none =>
          rw [connective] at gives
          cases gives
      | some found =>
          obtain ⟨node, next⟩ := found
          refine ⟨node, next, rfl, ?_⟩
          rw [connective] at gives
          have shorter := skipSpace_length_le pos
          have two := parseConnective_shorter connective
          obtain missing | ⟨after, term⟩ := termMissing_or_termRead next
          · exact .here missing
          · obtain ⟨right, read⟩ := term.some fuel (by omega)
            have inside := (parseFilterExpr_suffix fuel read).length_le
            dsimp only at gives
            rw [read] at gives
            obtain ⟨node', next', behind, rejected⟩ := ih (by omega) gives
            exact .later term behind rejected

/-- The loop gives up on a text that is rejected behind a connective. -/
theorem RejectedFilter.parseFilterLoop {next : List Char} (rejected : RejectedFilter next)
    {fuel : Nat} {left : FilterNode} {pos : List Char}
    {node : FilterNode → FilterNode → FilterNode} (enough : pos.length < fuel)
    (connective : parseConnective (skipSpace pos) = some (node, next)) :
    parseFilterLoop fuel left pos = none := by
  induction rejected generalizing fuel left pos node with
  | here missing =>
      obtain _ | fuel := fuel
      · exact absurd enough (Nat.not_lt_zero _)
      · rw [Nblex.parseFilterLoop, connective]
        dsimp only
        rw [missing.none]
  | @later next after next' node' term behind rejected ih =>
      obtain _ | fuel := fuel
      · exact absurd enough (Nat.not_lt_zero _)
      · have shorter := skipSpace_length_le pos
        have two := parseConnective_shorter connective
        obtain ⟨right, read⟩ := term.some fuel (by omega)
        have inside := (parseFilterExpr_suffix fuel read).length_le
        rw [Nblex.parseFilterLoop, connective]
        dsimp only
        rw [read]
        exact ih (by omega) behind

/-- No filter is made of exactly the texts in which a term is missing. -/
theorem nblexFilterNew_none_iff (text : List Char) :
    nblexFilterNew text = none ↔ RejectedFilter text := by
  rw [nblexFilterNew, parseFilterFull]
  constructor
  · intro gives
    obtain missing | ⟨after, term⟩ := termMissing_or_termRead text
    · exact .here missing
    · obtain ⟨left, read⟩ := term.some _ (Nat.lt_succ_self text.length)
      have inside := (parseFilterExpr_suffix _ read).length_le
      rw [read] at gives
      dsimp only at gives
      rw [Option.map_eq_none_iff] at gives
      obtain ⟨node, next, connective, rejected⟩ := parseFilterLoop_rejected (by omega) gives
      exact .later term connective rejected
  · intro rejected
    cases rejected with
    | here missing => rw [missing.none]
    | later term connective rejected =>
        obtain ⟨left, read⟩ := term.some _ (Nat.lt_succ_self text.length)
        have inside := (parseFilterExpr_suffix _ read).length_le
        rw [read]
        dsimp only
        rw [rejected.parseFilterLoop (by omega) connective, Option.map_none]

/-- A filter is made of well-formed texts only, exactly when the text is well-formed or a term is
    missing in it. -/
theorem acceptsWellFormed_iff (text : List Char) :
    (nblexFilterNew text ≠ none → WellFormedFilter text) ↔
      WellFormedFilter text ∨ RejectedFilter text := by
  rw [← nblexFilterNew_none_iff]
  constructor
  · intro accepts
    by_cases rejects : nblexFilterNew text = none
    · exact Or.inr rejects
    · exact Or.inl (accepts rejects)
  · rintro (wellFormed | rejects) accepted
    · exact wellFormed
    · exact absurd rejects accepted

end Terms

/-- The spellings of literals spell literals. -/
theorem FilterLiteral.Valid.literalText {literal : FilterLiteral} (valid : literal.Valid) :
    LiteralText literal.text := by
  cases literal with
  | string body => exact .string valid
  | integer negative digits =>
      have starts := startsNumber_number negative valid []
      have read := strtod_of_strtodIn negative valid (by simp)
        (@strtodIn_whole digits valid [] (by simp))
      rw [List.append_nil] at starts read
      exact .number starts (by rw [FilterLiteral.text, read])
  | decimal negative whole fraction =>
      obtain ⟨number, decimals⟩ := valid
      have starts := startsNumber_number negative number ('.' :: fraction)
      have fractionRead := @strtodIn_fraction whole fraction number decimals [] (by simp)
      rw [List.append_nil] at fractionRead
      have read := @strtod_of_strtodIn negative whole number ('.' :: fraction) (by simp) _ _
        fractionRead
      exact .number starts (by rw [FilterLiteral.text, read])
  | bool b =>
      cases b with
      | true => exact .isTrue
      | false => exact .isFalse

/-- The tokens of an operand. -/
def enclosedTokens (e : BoolExpr FilterAtom) (tokens : List FilterToken) : List FilterToken :=
  match e with
  | .atom _ => tokens
  | _ => .opening :: (tokens ++ [.closing])

/-- The tokens of an expression in parentheses. -/
def exprTokens : BoolExpr FilterAtom → List FilterToken
  | .atom a => [.field, .op a.op, .literal]
  | .not e => .not :: enclosedTokens e (exprTokens e)
  | .bin .and l r => enclosedTokens l (exprTokens l) ++ .and :: enclosedTokens r (exprTokens r)
  | .bin .or l r => enclosedTokens l (exprTokens l) ++ .or :: enclosedTokens r (exprTokens r)

theorem filterExpression_enclosed {e : BoolExpr FilterAtom} {tokens : List FilterToken}
    (expression : FilterExpression tokens) : FilterExpression (enclosedTokens e tokens) := by
  cases e with
  | atom a => exact expression
  | not e => exact .group expression
  | bin c l r => exact .group expression

theorem filterExpression_exprTokens (e : BoolExpr FilterAtom) :
    FilterExpression (exprTokens e) := by
  induction e with
  | atom a => exact .comparison a.op
  | not e ih => exact .not (filterExpression_enclosed ih)
  | bin c l r first second =>
      cases c with
      | and => exact .and (filterExpression_enclosed first) (filterExpression_enclosed second)
      | or => exact .or (filterExpression_enclosed first) (filterExpression_enclosed second)

/-- A token behind at most one blank. -/
theorem Spells.next {token : FilterToken} {tokens : List FilterToken} {text rest : List Char}
    (spells : Spells tokens rest) (spelling : token.Spelling text)
    (ends : token.EndsBefore rest) : Spells (token :: tokens) (text ++ rest) :=
  @Spells.cons token tokens [] text rest (by simp) spelling ends spells

theorem Spells.blank {tokens : List FilterToken} {text : List Char} (spells : Spells tokens text) :
    Spells tokens (' ' :: text) := by
  cases spells with
  | nil blank =>
      apply Spells.nil
      rw [List.forall_mem_cons]
      exact ⟨by decide, blank⟩
  | @cons token tokens blanks text rest blank spelling ends spells =>
      refine @Spells.cons token tokens (' ' :: blanks) text rest ?_ spelling ends spells
      rw [List.forall_mem_cons]
      exact ⟨by decide, blank⟩

theorem spells_atom (a : FilterAtom) {tokens : List FilterToken} {later : List Char}
    (spells : Spells tokens later) :
    Spells (.field :: .op a.op :: .literal :: tokens) (a.text ++ later) := by
  have literal := spells.next (.literal a.valid.literalText) trivial
  have operator := literal.blank.next (.op a.op) trivial
  have field := operator.blank.next (.field a.fieldNonempty a.fieldChars)
    (by rintro c ⟨⟩; decide)
  rw [FilterAtom.text, List.append_assoc, List.cons_append, List.append_assoc, List.cons_append]
  exact field

theorem spells_enclosed {e : BoolExpr FilterAtom} {inner : List FilterToken}
    (body : ∀ {tokens later}, Spells tokens later →
      Spells (inner ++ tokens) (exprBody e later))
    {tokens : List FilterToken} {later : List Char} (spells : Spells tokens later) :
    Spells (enclosedTokens e inner ++ tokens) (enclosed e (exprBody e) later) := by
  have group : Spells (.opening :: (inner ++ [.closing]) ++ tokens)
      ('(' :: exprBody e (')' :: later)) := by
    rw [List.cons_append, List.append_assoc]
    exact (body (spells.next .closing trivial)).next .opening trivial
  cases e with
  | atom a => exact body spells
  | not e => exact group
  | bin c l r => exact group

theorem spells_exprBody (e : BoolExpr FilterAtom) {tokens : List FilterToken} {later : List Char}
    (spells : Spells tokens later) : Spells (exprTokens e ++ tokens) (exprBody e later) := by
  induction e generalizing tokens later with
  | atom a => exact spells_atom a spells
  | not e ih => exact (spells_enclosed ih spells).blank.next .not trivial
  | bin c l r first second =>
      have right := spells_enclosed second spells
      cases c with
      | and =>
          have connective := (right.blank.next .and trivial).blank
          have left := spells_enclosed first connective
          rw [exprTokens, List.append_assoc, List.cons_append]
          exact left
      | or =>
          have connective := (right.blank.next .or trivial).blank
          have left := spells_enclosed first connective
          rw [exprTokens, List.append_assoc, List.cons_append]
          exact left

/-- The texts of expressions in parentheses are well-formed. -/
theorem wellFormedFilter_exprText (e : BoolExpr FilterAtom) : WellFormedFilter (exprText e) := by
  refine ⟨exprTokens e, filterExpression_exprTokens e, ?_⟩
  have spells := spells_exprBody e (@Spells.nil [] (by simp))
  rw [List.append_nil] at spells
  exact spells

/-- Each token is spelt in the text. -/
theorem Spells.token {tokens : List FilterToken} {text : List Char} (spells : Spells tokens text)
    {token : FilterToken} (member : token ∈ tokens) :
    ∃ spelt, token.Spelling spelt ∧ spelt ⊆ text := by
  induction spells with
  | nil blank => exact absurd member List.not_mem_nil
  | @cons first tokens blanks spelt rest blank spelling ends spells ih =>
      obtain rfl | later := List.mem_cons.mp member
      · refine ⟨spelt, spelling, ?_⟩
        apply List.subset_append_of_subset_right
        exact List.subset_append_left spelt rest
      · obtain ⟨found, spelling, inside⟩ := ih later
        refine ⟨found, spelling, ?_⟩
        apply List.subset_append_of_subset_right
        exact List.subset_append_of_subset_right spelt inside

/-- An expression holds a literal or an operator for patterns. -/
theorem FilterExpression.compares {tokens : List FilterToken}
    (expression : FilterExpression tokens) :
    .literal ∈ tokens ∨ .op .patMatch ∈ tokens ∨ .op .patNmatch ∈ tokens := by
  induction expression with
  | comparison op => simp
  | matching isMatch => obtain rfl | rfl := isMatch <;> simp
  | not operand ih => simpa using ih
  | and first second ih =>
      simp only [List.mem_append]
      tauto
  | or first second ih =>
      simp only [List.mem_append]
      tauto
  | group inner ih => simpa using ih

/-- The characters one of which each literal has. -/
def literalMark (c : Char) : Bool := c = '"' || isdigit c || c = 't' || c = 'f'

theorem startsNumber_marked {text : List Char} (number : startsNumber text = true) :
    ∃ c ∈ text, literalMark c = true := by
  unfold startsNumber at number
  split at number
  · next c rest => exact ⟨c, by simp, by simp [literalMark, number]⟩
  · next c rest _ => exact ⟨c, by simp, by simp [literalMark, number]⟩
  · exact absurd number Bool.false_ne_true

theorem LiteralText.marked {text : List Char} (literal : LiteralText text) :
    ∃ c ∈ text, literalMark c = true := by
  cases literal with
  | string quoted => exact ⟨'"', by simp, by simp [literalMark]⟩
  | number number whole => exact startsNumber_marked number
  | isTrue => exact ⟨'t', by simp, by simp [literalMark]⟩
  | isFalse => exact ⟨'f', by simp, by simp [literalMark]⟩

/-- A text with no trace of a literal or of a pattern is not well-formed. -/
theorem not_wellFormed_of_unmarked {text : List Char}
    (noLiteral : ∀ c ∈ text, literalMark c = false)
    (noPattern : '~' ∉ text) : ¬WellFormedFilter text := by
  rintro ⟨tokens, expression, spells⟩
  obtain literal | matching | matching := expression.compares
  · obtain ⟨spelt, spelling, inside⟩ := spells.token literal
    cases spelling with
    | literal literal =>
        obtain ⟨c, member, marked⟩ := literal.marked
        exact absurd marked (by rw [noLiteral c (inside member)]; exact Bool.false_ne_true)
  · obtain ⟨spelt, spelling, inside⟩ := spells.token matching
    cases spelling with
    | op => exact noPattern (inside (by simp [FilterOp.text]))
  · obtain ⟨spelt, spelling, inside⟩ := spells.token matching
    cases spelling with
    | op => exact noPattern (inside (by simp [FilterOp.text]))

/-- The first filter of the documentation. -/
def wordFilter : List Char := "log.level == ERROR".toList

/-- The word is no literal, and a filter without a value is made of it. -/
theorem wordFilter_accepted :
    @nblexFilterNew literalPcre2 wordFilter = some (.expr ⟨"log.level", .eq, .unset, none⟩) ∧
      ¬WellFormedFilter wordFilter := by
  constructor
  · decide
  · have unmarked : wordFilter.all (fun c => !literalMark c && c != '~') = true := by decide
    simp only [List.all_eq_true, Bool.and_eq_true, Bool.not_eq_true', bne_iff_ne] at unmarked
    apply not_wellFormed_of_unmarked
    · intro c member
      exact (unmarked c member).1
    · intro member
      exact (unmarked '~' member).2 rfl

end Nblex
