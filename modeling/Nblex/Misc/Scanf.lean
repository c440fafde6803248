import Nblex.Misc.Numerals
import Mathlib.Tactic.IntervalCases

/-!
# `sscanf`

Formats of strings and decimal integers with a maximal width, of blanks and of literal characters.
The result lists what was converted before the first directive that failed, so that its length is
what the C function returns.
-/

namespace Nblex

/-- A directive of a format: `%3s`, `%2d`, a blank, any other character. -/
inductive Directive where
  | string (width : Nat)
  | int (width : Nat)
  | space
  | literal (c : Char)
  deriving DecidableEq

/-- A converted value. -/
inductive Scanned where
  | text (word : List Char)
  | int (n : Int)
  deriving DecidableEq

/-- `%s` with a width: a word, after blanks. -/
def scanWord (width : Nat) (pos : List Char) : Option (List Char × List Char) :=
  let word := ((skipSpace pos).take width).takeWhile fun c => !isspace c
  if word = [] then none else some (word, (skipSpace pos).drop word.length)

/-- `%d` with a width, after blanks. The sign counts for the width. -/
def scanInt (width : Nat) (pos : List Char) : Option (Int × List Char) :=
  let field := (skipSpace pos).take width
  let (negative, unsigned) := takeSign field
  let digits := unsigned.takeWhile isdigit
  if digits = [] then none
  else
    let value : Int := decimalValue digits
    some (if negative then -value else value,
      (skipSpace pos).drop (field.length - unsigned.length + digits.length))

/-- `sscanf(pos, format, ...)`. -/
def sscanf : List Directive → List Char → List Scanned
  | [], _ => []
  | .string width :: format, pos =>
      match scanWord width pos with
      | some (word, rest) => .text word :: sscanf format rest
      | none => []
  | .int width :: format, pos =>
      match scanInt width pos with
      | some (n, rest) => .int n :: sscanf format rest
      | none => []
  | .space :: format, pos => sscanf format (skipSpace pos)
  | .literal c :: format, pos =>
      match pos with
      | [] => []
      | d :: rest => if d = c then sscanf format rest else []

/-- A number of two digits. -/
def twoDigits (n : Nat) : List Char := [Nat.digitChar (n / 10), Nat.digitChar (n % 10)]

theorem digitChar_digit {d : Nat} (small : d < 10) : isdigit (Nat.digitChar d) = true := by
  interval_cases d <;> rfl

theorem digitChar_value {d : Nat} (small : d < 10) : (Nat.digitChar d).toNat - '0'.toNat = d := by
  interval_cases d <;> rfl

theorem digitChar_start {d : Nat} (small : d < 10) (rest : List Char) :
    skipSpace (Nat.digitChar d :: rest) = Nat.digitChar d :: rest ∧
      takeSign (Nat.digitChar d :: rest) = (false, Nat.digitChar d :: rest) := by
  interval_cases d <;> exact ⟨rfl, rfl⟩

/-- A run of digits as long as the width is read whatever follows. -/
theorem scanInt_digits {digits : List Char} (number : Digits digits) (rest : List Char) :
    scanInt digits.length (digits ++ rest) = some ((decimalValue digits : Int), rest) := by
  have start : ∀ later : List Char, skipSpace (digits ++ later) = digits ++ later := by
    intro later
    cases digits with
    | nil => exact absurd rfl number.1
    | cons c digits =>
        exact skipSpace_of_head _ (digit_plain (number.2 c List.mem_cons_self)).1
  have sign := takeSign_number false number []
  rw [signText, if_neg Bool.false_ne_true, List.nil_append, start, List.append_nil] at sign
  have all := (@takeWhile_stop isdigit digits [] number.2 (by simp)).1
  rw [List.append_nil] at all
  simp only [scanInt, start, List.take_left, sign, all, if_neg number.1, Bool.false_eq_true,
    if_false, Nat.sub_self, Nat.zero_add, List.drop_left]

theorem twoDigits_digit {n : Nat} (small : n < 100) :
    ∀ c ∈ twoDigits n, isdigit c = true := by
  intro c member
  simp only [twoDigits, List.mem_cons, List.not_mem_nil, or_false] at member
  rcases member with rfl | rfl
  · exact digitChar_digit (by omega)
  · exact digitChar_digit (by omega)

theorem twoDigits_value {n : Nat} (small : n < 100) : decimalValue (twoDigits n) = n := by
  simp only [decimalValue, twoDigits, List.foldl_cons, List.foldl_nil,
    digitChar_value (show n / 10 < 10 by omega), digitChar_value (show n % 10 < 10 by omega)]
  omega

/-- Two digits are read whatever follows. -/
theorem scanInt_twoDigits {n : Nat} (small : n < 100) (rest : List Char) :
    scanInt 2 (twoDigits n ++ rest) = some ((n : Int), rest) := by
  have number : Digits (twoDigits n) := ⟨List.cons_ne_nil _ _, twoDigits_digit small⟩
  have read := scanInt_digits number rest
  rw [twoDigits_value small] at read
  exact read

/-- A number of four digits. -/
def fourDigits (n : Nat) : List Char := twoDigits (n / 100) ++ twoDigits (n % 100)

theorem fourDigits_digit {n : Nat} (small : n < 10000) :
    ∀ c ∈ fourDigits n, isdigit c = true := by
  intro c member
  rcases List.mem_append.mp member with front | back
  · exact twoDigits_digit (by omega) c front
  · exact twoDigits_digit (by omega) c back

/-- Four digits are read whatever follows. -/
theorem scanInt_fourDigits {n : Nat} (small : n < 10000) (rest : List Char) :
    scanInt 4 (fourDigits n ++ rest) = some ((n : Int), rest) := by
  have value : decimalValue (fourDigits n) = n := by
    rw [fourDigits, decimalValue_append, twoDigits_value (by omega), twoDigits_value (by omega)]
    exact Nat.div_add_mod' n 100
  have number : Digits (fourDigits n) := ⟨List.cons_ne_nil _ _, fourDigits_digit small⟩
  have read := scanInt_digits number rest
  rw [value] at read
  exact read

/-- A single digit in front of a blank. -/
theorem scanInt_oneDigit {n : Nat} (small : n < 10) (rest : List Char) :
    scanInt 2 (Nat.digitChar n :: ' ' :: rest) = some ((n : Int), ' ' :: rest) := by
  obtain ⟨start, -⟩ := digitChar_start small (' ' :: rest)
  obtain ⟨-, sign⟩ := digitChar_start small [' ']
  have value : decimalValue [Nat.digitChar n] = n := by
    simp only [decimalValue, List.foldl_cons, List.foldl_nil, digitChar_value small]
    omega
  have blank : isdigit ' ' = false := rfl
  simp only [scanInt, start, List.take, sign, List.takeWhile_cons, digitChar_digit small, blank,
    if_true]
  simp [value]

end Nblex
