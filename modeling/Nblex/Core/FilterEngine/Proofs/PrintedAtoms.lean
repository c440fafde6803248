import Nblex.Core.FilterEngine.Proofs.NamedTerms

/-!
# Printed comparisons

A field, an operator and a printed literal, with blanks around the operator or without them, are
parsed to the comparison that was printed.
-/

namespace Nblex

/-- The literals whose text says what they are: strings without quotes and backslashes, integers of
    thirty-two bits, decimals with a point, which need no digits behind it, and booleans. -/
def FilterLiteral.Plain : FilterLiteral → Prop
  | .string body => ∀ c ∈ body, c ≠ '"' ∧ c ≠ '\\'
  | .integer negative digits =>
      Digits digits ∧ -2 ^ 31 ≤ integerValue negative digits ∧ integerValue negative digits < 2 ^ 31
  | .decimal _ whole fraction => Digits whole ∧ ∀ c ∈ fraction, isdigit c = true
  | .bool _ => True

/-- The value a literal is written for. -/
def FilterLiteral.value : FilterLiteral → FilterValue
  | .string body => .string (String.ofList body)
  | .integer negative digits => .integer (integerValue negative digits)
  | .decimal negative whole fraction =>
      .real (signed negative ((decimalValue (whole ++ fraction) : ℚ) / 10 ^ fraction.length))
  | .bool b => .bool b

/-- A literal starts with a quote, a sign, a digit or a letter. -/
theorem FilterLiteral.Plain.head {literal : FilterLiteral} (plain : literal.Plain) :
    ∃ c rest, literal.text = c :: rest ∧ isspace c = false ∧ c ≠ '=' := by
  have number : ∀ (negative : Bool) {digits : List Char}, Digits digits → ∀ tail : List Char,
      ∃ c rest, signText negative ++ (digits ++ tail) = c :: rest ∧ isspace c = false ∧
        c ≠ '=' := by
    intro negative digits number tail
    obtain ⟨nonempty, all⟩ := number
    cases digits with
    | nil => exact absurd rfl nonempty
    | cons d digits =>
        cases negative with
        | true => exact ⟨'-', d :: (digits ++ tail), rfl, by decide, by decide⟩
        | false =>
            have digit := all d List.mem_cons_self
            refine ⟨d, digits ++ tail, rfl, (digit_plain digit).1, ?_⟩
            rintro rfl
            cases digit
  cases literal with
  | string body => exact ⟨'"', _, rfl, by decide, by decide⟩
  | integer negative digits =>
      have text := number negative plain.1 []
      rw [List.append_nil] at text
      exact text
  | decimal negative whole fraction => exact number negative plain.1 ('.' :: fraction)
  | bool b =>
      cases b with
      | true => exact ⟨'t', _, rfl, by decide, by decide⟩
      | false => exact ⟨'f', _, rfl, by decide, by decide⟩

section Printed

variable [Pcre2]

/-- The text starts with its value, whatever the operator in front of it, and nothing is left behind
    the value. -/
structure ReadsAs (text : List Char) (value : FilterValue) : Prop where
  visible : skipSpace text = text
  reads : ∀ op, parseFilterValue op text = (value, none, [])

theorem FilterLiteral.Valid.readsAs {literal : FilterLiteral} (valid : literal.Valid) :
    ReadsAs literal.text (literal.valueBefore []) := by
  have visible := skipSpace_literal valid []
  have reads := fun op => parseFilterValue_literal op valid (Or.inl rfl : Stops [])
  simp only [List.append_nil] at visible reads
  exact ⟨visible, reads⟩

/-- A literal is read as the value it is written for. -/
theorem FilterLiteral.Plain.readsAs {literal : FilterLiteral} (plain : literal.Plain) :
    ReadsAs literal.text literal.value := by
  cases literal with
  | string body => exact @FilterLiteral.Valid.readsAs _ (.string body) (quoted_plain plain)
  | integer negative digits =>
      obtain ⟨number, lower, upper⟩ := plain
      have read := @FilterLiteral.Valid.readsAs _ (.integer negative digits) number
      rw [FilterLiteral.valueBefore, if_neg (by simp), ← integerValue,
        toInt32_clampLong lower upper] at read
      exact read
  | decimal negative whole fraction =>
      obtain ⟨c, tail, text, visible, -⟩ := plain.head
      obtain ⟨number, decimals⟩ := plain
      have starts := startsNumber_number negative number ('.' :: fraction)
      have dotted := number_no_dot negative number ('.' :: fraction)
      have fractionRead := @strtodIn_point whole fraction number decimals [] (by simp)
      rw [List.append_nil] at fractionRead
      have noHex : ∀ c ∈ ('.' :: fraction).head?, c.toLower ≠ 'x' := by
        rintro c ⟨⟩
        decide
      have read := strtod_of_strtodIn negative number noHex fractionRead
      constructor
      · rw [text]
        exact skipSpace_of_head tail visible
      · intro op
        rw [FilterLiteral.text, parseFilterValue_plain op (number_no_quote negative number _),
          if_pos starts, if_pos (dotted.trans (by simp)), read, FilterLiteral.value]
  | bool b => exact @FilterLiteral.Valid.readsAs _ (.bool b) trivial

omit [Pcre2] in
/-- A comparison is written with a symbol, not with a word. -/
theorem comparison_symbol {op : FilterOp} (comparison : op.isComparison = true) :
    op ≠ .isIn ∧ op ≠ .contains := by
  cases op with
  | eq | ne | lt | le | gt | ge => exact ⟨nofun, nofun⟩
  | patMatch | patNmatch | isIn | contains => cases comparison

end Printed

end Nblex
