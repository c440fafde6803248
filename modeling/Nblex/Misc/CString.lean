import Nblex.Misc.Double
import Mathlib.Algebra.Group.Int.Defs
import Mathlib.Data.Rat.Defs

/-!
# C strings and the library functions that scan them

A C string is the list of its characters without the terminating NUL, and a pointer into it
is the suffix that starts there, so that `*pos` is the head of the list and the end of the
list is the NUL. Character classes are those of the "C" locale.
-/

namespace Nblex

/-- `isspace`. -/
def isspace (c : Char) : Bool := c = ' ' || (9 ≤ c.toNat && c.toNat ≤ 13)

/-- `isdigit`. -/
def isdigit (c : Char) : Bool := c.isDigit

/-- `isalnum`. -/
def isalnum (c : Char) : Bool := c.isAlphanum

/-- The loop `while (*pos && isspace(*pos)) pos++`. -/
def skipSpace (pos : List Char) : List Char := pos.dropWhile isspace

/-- The text is at its end or at a blank. -/
def BlankOrEnd : List Char → Prop
  | [] => True
  | c :: _ => isspace c = true

/-- `strncmp(pos, keyword, strlen(keyword)) == 0`. -/
def startsWith (pos keyword : List Char) : Bool := keyword.isPrefixOf pos

/-- `strstr(pos, needle)`: the first place where the needle stands. -/
def strstr (pos needle : List Char) : Option (List Char) :=
  pos.tails.find? (fun tail => startsWith tail needle)

/-- The value of a run of decimal digits. -/
def decimalValue (digits : List Char) : Nat :=
  digits.foldl (fun value c => value * 10 + (c.toNat - '0'.toNat)) 0

/-- An optional sign: whether the number is negative, and the rest. -/
def takeSign : List Char → Bool × List Char
  | '-' :: rest => (true, rest)
  | '+' :: rest => (false, rest)
  | pos => (false, pos)

/-- `strtol(pos, &end, 10)` with its saturation at `LONG_MIN` and `LONG_MAX`. Without a
    digit the value is `0` and `end` is `pos`. -/
def strtol (pos : List Char) : Int × List Char :=
  let (negative, unsigned) := takeSign (skipSpace pos)
  match unsigned.takeWhile isdigit with
  | [] => (0, pos)
  | digits =>
      let value : Int := decimalValue digits
      let signed := if negative then -value else value
      (max (-2 ^ 63) (min (2 ^ 63 - 1) signed), unsigned.dropWhile isdigit)

/-- The value of a hexadecimal digit. -/
def hexDigit (c : Char) : Nat :=
  if c.isDigit then c.toNat - '0'.toNat
  else if 'a' ≤ c then c.toNat - 'a'.toNat + 10 else c.toNat - 'A'.toNat + 10

/-- `isxdigit`. -/
def isxdigit (c : Char) : Bool :=
  c.isDigit || ('a' ≤ c && c ≤ 'f') || ('A' ≤ c && c ≤ 'F')

/-- The value of a run of digits in a base. -/
def digitsValue (base : Nat) (digits : List Char) : Nat :=
  digits.foldl (fun value c => value * base + hexDigit c) 0

/-- The exponent part of a number, if a complete one follows: its value and the rest. -/
def takeExponent (marker : Char) (pos : List Char) : Int × List Char :=
  match pos with
  | c :: rest =>
      if c.toLower = marker then
        let (negative, unsigned) := takeSign rest
        match unsigned.takeWhile isdigit with
        | [] => (0, pos)
        | digits =>
            let value : Int := decimalValue digits
            (if negative then -value else value, unsigned.dropWhile isdigit)
      else (0, pos)
  | [] => (0, pos)

/-- Digits with an optional fraction and exponent in one base; `none` without a digit. -/
def strtodIn (base expBase : Nat) (marker : Char) (digit : Char → Bool) (pos : List Char) :
    Option (ℚ × List Char) :=
  let whole := pos.takeWhile digit
  let (fraction, rest) : List Char × List Char :=
    match pos.dropWhile digit with
    | '.' :: rest => (rest.takeWhile digit, rest.dropWhile digit)
    | rest => ([], rest)
  if whole = [] ∧ fraction = [] then none
  else
    let mantissa : ℚ := (digitsValue base (whole ++ fraction) : ℚ) / base ^ fraction.length
    let (exponent, rest) := takeExponent marker rest
    some (mantissa * (expBase : ℚ) ^ exponent, rest)

/-- `strtod(pos, &end)` on finite numbers, decimal or hexadecimal, as the exact rational the
    digits denote. Without a number the value is `0` and `end` is `pos`. A caller that has not
    seen a digit first needs `strtodDouble`. -/
def strtod (pos : List Char) : ℚ × List Char :=
  let (negative, unsigned) := takeSign (skipSpace pos)
  let hexadecimal : Option (ℚ × List Char) :=
    match unsigned with
    | '0' :: x :: rest =>
        if x.toLower = 'x' then strtodIn 16 2 'p' isxdigit rest else none
    | _ => none
  match hexadecimal.orElse (fun _ => strtodIn 10 10 'e' isdigit unsigned) with
  | some (value, rest) => (if negative then -value else value, rest)
  | none => (0, pos)

/-- What stands behind a word, in whatever case it is written. -/
def afterWord (word pos : List Char) : Option (List Char) :=
  if startsWith (pos.map Char.toLower) word then some (pos.drop word.length) else none

/-- The parentheses that may follow `nan`, with letters, digits and underscores in them. -/
def skipNanChars (pos : List Char) : List Char :=
  match pos with
  | '(' :: rest =>
      match rest.dropWhile (fun c => isalnum c || c = '_') with
      | ')' :: tail => tail
      | _ => pos
  | _ => pos

/-- The texts of `strtod` without a digit, behind the sign. -/
def strtodSpecial (negative : Bool) (unsigned : List Char) : Option (Double × List Char) :=
  match afterWord ['i', 'n', 'f', 'i', 'n', 'i', 't', 'y'] unsigned with
  | some rest => some (.infinity negative, rest)
  | none =>
      match afterWord ['i', 'n', 'f'] unsigned with
      | some rest => some (.infinity negative, rest)
      | none =>
          (afterWord ['n', 'a', 'n'] unsigned).map fun rest => (.nan negative, skipNanChars rest)

/-- `strtod(pos, &end)` on all texts. -/
def strtodDouble (pos : List Char) : Double × List Char :=
  let (negative, unsigned) := takeSign (skipSpace pos)
  match strtodSpecial negative unsigned with
  | some read => read
  | none => (.finite (strtod pos).1, (strtod pos).2)

theorem takeWhile_stop {p : Char → Bool} {xs rest : List Char} (all : ∀ c ∈ xs, p c = true)
    (stop : ∀ c ∈ rest.head?, p c = false) :
    (xs ++ rest).takeWhile p = xs ∧ (xs ++ rest).dropWhile p = rest := by
  induction xs with
  | nil =>
      cases rest with
      | nil => exact ⟨rfl, rfl⟩
      | cons c rest => simp [stop c rfl]
  | cons x xs ih =>
      obtain ⟨taken, dropped⟩ := ih (fun c member => all c (List.mem_cons_of_mem x member))
      have here := all x List.mem_cons_self
      simp [here, taken, dropped]

@[simp] theorem skipSpace_nil : skipSpace [] = [] := rfl

theorem skipSpace_length_le (pos : List Char) : (skipSpace pos).length ≤ pos.length :=
  (List.dropWhile_suffix _).length_le

theorem skipSpace_of_head {c : Char} (rest : List Char) (h : isspace c = false) :
    skipSpace (c :: rest) = c :: rest := by
  simp [skipSpace, h]

theorem skipSpace_blank (rest : List Char) : skipSpace (' ' :: rest) = skipSpace rest := by
  simp [skipSpace, isspace]

theorem BlankOrEnd.stops {rest : List Char} (blank : BlankOrEnd rest) :
    ∀ c ∈ rest.head?, (!isspace c) = false := by
  cases rest with
  | nil => rintro c ⟨⟩
  | cons d rest =>
      rintro c ⟨⟩
      have space : isspace d = true := blank
      rw [space]
      rfl

theorem afterWord_of_head {first : Char} {word pos : List Char}
    (other : ∀ c ∈ pos.head?, c.toLower ≠ first) : afterWord (first :: word) pos = none := by
  cases pos with
  | nil => rfl
  | cons c rest =>
      have differs : first ≠ c.toLower := Ne.symm (other c rfl)
      simp [afterWord, startsWith, differs]

/-- A text that begins with neither of the letters is read as a finite number. -/
theorem strtodDouble_of_head {pos : List Char}
    (other : ∀ c ∈ (takeSign (skipSpace pos)).2.head?, c.toLower ≠ 'i' ∧ c.toLower ≠ 'n') :
    strtodDouble pos = (.finite (strtod pos).1, (strtod pos).2) := by
  have noInf := fun word => @afterWord_of_head 'i' word _ fun c head => (other c head).1
  have noNan := fun word => @afterWord_of_head 'n' word _ fun c head => (other c head).2
  simp only [strtodDouble, strtodSpecial, noInf, noNan, Option.map_none]

theorem startsWith_iff {pos keyword : List Char} :
    startsWith pos keyword = true ↔ ∃ rest, pos = keyword ++ rest := by
  rw [startsWith, List.isPrefixOf_iff_prefix]
  exact ⟨fun ⟨rest, h⟩ => ⟨rest, h.symm⟩, fun ⟨rest, h⟩ => ⟨rest, h.symm⟩⟩

end Nblex
