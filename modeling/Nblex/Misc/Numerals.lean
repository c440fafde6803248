import Mathlib.Tactic.Ring
import Nblex.Misc.CString

/-!
# Numerals

What `strtol` and `strtod` make of a run of digits, with a sign or without and with a fraction or
without, in front of any text that does not go on with the number.
-/

namespace Nblex

/-! ## Digits -/

/-- A non-empty run of digits. -/
def Digits (digits : List Char) : Prop := digits ≠ [] ∧ ∀ c ∈ digits, isdigit c = true

theorem digits_five : Digits ['5'] := ⟨List.cons_ne_nil _ _, List.all_eq_true.mp (by decide)⟩

/-- The minus sign of a number. -/
def signText (negative : Bool) : List Char := if negative then ['-'] else []

/-- A number with its sign. -/
def signed {R : Type*} [Neg R] (negative : Bool) (value : R) : R :=
  if negative then -value else value

/-- What `strtol` makes of a number. -/
def clampLong (value : Int) : Int := max (-2 ^ 63) (min (2 ^ 63 - 1) value)

/-! ## Values of digits -/

theorem isdigit_range {c : Char} (digit : isdigit c = true) : 48 ≤ c.toNat ∧ c.toNat ≤ 57 := by
  simpa [isdigit, Char.isDigit, UInt32.le_iff_toNat_le] using digit

theorem decimalValue_append (front back : List Char) :
    decimalValue (front ++ back) = decimalValue front * 10 ^ back.length + decimalValue back := by
  have start : ∀ (digits : List Char) (value : Nat),
      digits.foldl (fun value c => value * 10 + (c.toNat - '0'.toNat)) value =
        value * 10 ^ digits.length + decimalValue digits := by
    intro digits
    induction digits with
    | nil => intro value; simp [decimalValue]
    | cons c digits ih =>
        intro value
        rw [decimalValue, List.foldl_cons, List.foldl_cons, ih, ih, List.length_cons]
        ring
  rw [decimalValue, List.foldl_append, start]
  rfl

theorem decimalValue_zeros (n : Nat) : decimalValue (List.replicate n '0') = 0 := by
  induction n with
  | zero => rfl
  | succ n ih =>
      have last := decimalValue_append (List.replicate n '0') ['0']
      rw [ih] at last
      rw [List.replicate_succ', last]
      rfl

theorem decimalValue_lt {digits : List Char} (all : ∀ c ∈ digits, isdigit c = true) :
    decimalValue digits < 10 ^ digits.length := by
  induction digits with
  | nil => exact Nat.one_pos
  | cons c digits ih =>
      have rest := ih fun d member => all d (List.mem_cons_of_mem c member)
      have range := isdigit_range (all c List.mem_cons_self)
      have first : decimalValue [c] ≤ 9 := by
        show 0 * 10 + (c.toNat - 48) ≤ 9
        omega
      have scaled := Nat.mul_le_mul_right (10 ^ digits.length) first
      have split := decimalValue_append [c] digits
      rw [List.singleton_append] at split
      rw [split, List.length_cons, Nat.pow_succ]
      omega

/-! ## Reading numbers -/

/-- A character that is neither a sign nor a blank starts a number without a sign. -/
theorem digit_plain {c : Char} (digit : isdigit c = true) :
    isspace c = false ∧ c ≠ '-' ∧ c ≠ '+' ∧ c ≠ '"' ∧ c ≠ '.' := by
  have range := isdigit_range digit
  refine ⟨?_, ?_, ?_, ?_, ?_⟩
  · have notBlank : c ≠ ' ' := by
      rintro rfl
      exact absurd range.1 (by decide)
    have notControl : ¬ c.toNat ≤ 13 := by omega
    simp [isspace, notBlank, notControl]
  all_goals
    rintro rfl
    revert range
    decide

theorem takeSign_number (negative : Bool) {digits : List Char} (number : Digits digits)
    (rest : List Char) :
    takeSign (skipSpace (signText negative ++ (digits ++ rest))) = (negative, digits ++ rest) := by
  obtain ⟨nonempty, all⟩ := number
  cases negative with
  | true =>
      rw [signText, if_pos rfl, List.singleton_append, skipSpace_of_head _ (by decide)]
      rfl
  | false =>
      cases digits with
      | nil => exact absurd rfl nonempty
      | cons c digits =>
          obtain ⟨noSpace, noMinus, noPlus, -, -⟩ := digit_plain (all c List.mem_cons_self)
          rw [signText, if_neg Bool.false_ne_true, List.nil_append, List.cons_append,
            skipSpace_of_head _ noSpace, takeSign]
          · intro tail isMinus
            exact noMinus (List.cons.inj isMinus).1
          · intro tail isPlus
            exact noPlus (List.cons.inj isPlus).1

/-- `strtol` reads a number up to the next character that is no digit. -/
theorem strtol_number (negative : Bool) {digits : List Char} (number : Digits digits)
    {rest : List Char} (stop : ∀ c ∈ rest.head?, isdigit c = false) :
    strtol (signText negative ++ (digits ++ rest)) =
      (clampLong (signed negative (decimalValue digits : Int)), rest) := by
  obtain ⟨taken, dropped⟩ := takeWhile_stop number.2 stop
  rw [strtol, takeSign_number negative number]
  simp only [taken, dropped]
  cases digits with
  | nil => exact absurd rfl number.1
  | cons c digits => rfl

theorem toDigits_digits (n : Nat) : Digits (Nat.toDigits 10 n) := by
  constructor
  · exact Nat.toDigits_ne_nil
  · intro c mem
    exact Nat.isDigit_of_mem_toDigits (by decide) (by decide) mem

theorem decimalValue_toDigits (n : Nat) : decimalValue (Nat.toDigits 10 n) = n := by
  have same : decimalValue (Nat.toDigits 10 n) = Nat.ofDigitChars 10 (Nat.toDigits 10 n) 0 := by
    rw [Nat.ofDigitChars_eq_foldl, decimalValue]
    congr 1
    funext value c
    rw [Nat.mul_comm]
  rw [same, Nat.ofDigitChars_ten_toDigits]

theorem digitsValue_decimal {digits : List Char} (all : ∀ c ∈ digits, isdigit c = true) :
    digitsValue 10 digits = decimalValue digits := by
  have step : ∀ (digits : List Char) (value : Nat), (∀ c ∈ digits, isdigit c = true) →
      digits.foldl (fun value c => value * 10 + hexDigit c) value =
        digits.foldl (fun value c => value * 10 + (c.toNat - '0'.toNat)) value := by
    intro digits
    induction digits with
    | nil =>
        intro value all
        rfl
    | cons c digits ih =>
        intro value all
        have here : hexDigit c = c.toNat - '0'.toNat := if_pos (all c List.mem_cons_self)
        rw [List.foldl_cons, List.foldl_cons, here]
        exact ih _ (fun c member => all c (List.mem_cons_of_mem _ member))
  exact step digits 0 all

/-- What can follow a number that `strtod` reads without its exponent or a hexadecimal part. -/
theorem takeExponent_stop {rest : List Char} (stop : ∀ c ∈ rest.head?, c.toLower ≠ 'e') :
    takeExponent 'e' rest = (0, rest) := by
  cases rest with
  | nil => rfl
  | cons c rest => simp only [takeExponent, if_neg (stop c rfl)]

theorem digit_toLower {c : Char} (digit : isdigit c = true) : c.toLower = c := by
  have range := isdigit_range digit
  apply dif_neg
  rintro ⟨upper, -⟩
  have bound : 65 ≤ c.toNat := by simpa [UInt32.le_iff_toNat_le] using upper
  omega

/-- A text that begins with a digit is read as a finite number. -/
theorem strtodDouble_number (negative : Bool) {digits : List Char} (number : Digits digits)
    (rest : List Char) :
    strtodDouble (signText negative ++ (digits ++ rest)) =
      (.finite (strtod (signText negative ++ (digits ++ rest))).1,
        (strtod (signText negative ++ (digits ++ rest))).2) := by
  refine strtodDouble_of_head fun c head => ?_
  rw [takeSign_number negative number] at head
  obtain ⟨nonempty, all⟩ := number
  have digit : isdigit c = true := by
    cases digits with
    | nil => exact absurd rfl nonempty
    | cons d digits => exact Option.some.inj head ▸ all d List.mem_cons_self
  rw [digit_toLower digit]
  constructor
  · rintro rfl
    exact absurd digit (by decide)
  · rintro rfl
    exact absurd digit (by decide)

/-- `strtod` on digits with or without a fraction. -/
theorem strtod_of_strtodIn (negative : Bool) {digits : List Char} (number : Digits digits)
    {rest : List Char} (noHex : ∀ c ∈ rest.head?, c.toLower ≠ 'x') {value : ℚ}
    {tail : List Char} (read : strtodIn 10 10 'e' isdigit (digits ++ rest) = some (value, tail)) :
    strtod (signText negative ++ (digits ++ rest)) = (signed negative value, tail) := by
  have second : ∀ (x : Char) (tl : List Char), digits ++ rest = '0' :: x :: tl →
      x.toLower ≠ 'x' := by
    intro x tl shape
    obtain ⟨nonempty, all⟩ := number
    cases digits with
    | nil => exact absurd rfl nonempty
    | cons c digits =>
        obtain ⟨-, same⟩ := List.cons.inj shape
        cases digits with
        | nil =>
            have here : rest = x :: tl := same
            exact noHex x (here ▸ rfl)
        | cons d digits =>
            obtain ⟨rfl, -⟩ := List.cons.inj same
            have digit := all d (List.mem_cons_of_mem _ List.mem_cons_self)
            rw [digit_toLower digit]
            rintro rfl
            exact absurd digit (by decide)
  rw [strtod, takeSign_number negative number]
  dsimp only
  generalize digits ++ rest = unsigned at read second
  have plain : ∀ hex : Option (ℚ × List Char), hex = none →
      hex.orElse (fun _ => strtodIn 10 10 'e' isdigit unsigned) = some (value, tail) := by
    rintro hex rfl
    exact read
  rw [plain]
  · rfl
  · split
    · next x tl => exact if_neg (second x tl rfl)
    · rfl

theorem strtodIn_whole {digits : List Char} (number : Digits digits) {rest : List Char}
    (stop : ∀ c ∈ rest.head?, isdigit c = false ∧ c ≠ '.' ∧ c.toLower ≠ 'e') :
    strtodIn 10 10 'e' isdigit (digits ++ rest) = some ((decimalValue digits : ℚ), rest) := by
  obtain ⟨taken, dropped⟩ := takeWhile_stop number.2 (fun c member => (stop c member).1)
  have noExponent := takeExponent_stop (fun c member => (stop c member).2.2)
  rw [strtodIn, taken, dropped]
  cases rest with
  | nil => simp [number.1, noExponent, digitsValue_decimal number.2]
  | cons c tl =>
      have noDot : c ≠ '.' := (stop c rfl).2.1
      simp [number.1, noDot, noExponent, digitsValue_decimal number.2]

/-- Digits, a dot and what digits there are behind it. -/
theorem strtodIn_point {whole fraction : List Char} (number : Digits whole)
    (decimals : ∀ c ∈ fraction, isdigit c = true) {rest : List Char}
    (stop : ∀ c ∈ rest.head?, isdigit c = false ∧ c.toLower ≠ 'e') :
    strtodIn 10 10 'e' isdigit (whole ++ ('.' :: (fraction ++ rest))) =
      some ((decimalValue (whole ++ fraction) : ℚ) / 10 ^ fraction.length, rest) := by
  have dotStops : ∀ c ∈ ('.' :: (fraction ++ rest)).head?, isdigit c = false := by
    intro c member
    rw [← Option.some.inj member]
    rfl
  obtain ⟨taken, dropped⟩ := takeWhile_stop number.2 dotStops
  obtain ⟨taken', dropped'⟩ := takeWhile_stop decimals (fun c member => (stop c member).1)
  have all : ∀ c ∈ whole ++ fraction, isdigit c = true := by
    intro c member
    rcases List.mem_append.mp member with inWhole | inFraction
    · exact number.2 c inWhole
    · exact decimals c inFraction
  rw [strtodIn, taken, dropped]
  simp only [taken', dropped', number.1, false_and, if_false,
    takeExponent_stop (fun c member => (stop c member).2), zpow_zero, mul_one,
    digitsValue_decimal all]
  rfl

theorem strtodIn_fraction {whole fraction : List Char} (number : Digits whole)
    (decimals : Digits fraction) {rest : List Char}
    (stop : ∀ c ∈ rest.head?, isdigit c = false ∧ c.toLower ≠ 'e') :
    strtodIn 10 10 'e' isdigit (whole ++ ('.' :: (fraction ++ rest))) =
      some ((decimalValue (whole ++ fraction) : ℚ) / 10 ^ fraction.length, rest) :=
  strtodIn_point number decimals.2 stop

end Nblex
