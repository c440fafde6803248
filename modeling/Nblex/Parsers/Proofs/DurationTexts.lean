import Nblex.Parsers.Proofs.Reading

/-!
# Texts of durations

A duration is a number and a unit. The number is scanned by `strtoull`, which takes a sign and
stays at its largest value, and the product with the unit is taken modulo `2 ^ 64`; every such text
is accepted.
-/

namespace Nblex

namespace NqlParser

/-- A sign in front of a number. -/
inductive NumberSign where
  | none
  | plus
  | minus
  deriving DecidableEq

def NumberSign.text : NumberSign → List Char
  | .none => []
  | .plus => ['+']
  | .minus => ['-']

/-- The units of `parse_duration`. -/
inductive DurationUnit where
  | ms
  | s
  | m
  | h
  deriving DecidableEq

def DurationUnit.text : DurationUnit → List Char
  | .ms => ['m', 's']
  | .s => ['s']
  | .m => ['m']
  | .h => ['h']

/-- The milliseconds of a unit. -/
def DurationUnit.factor : DurationUnit → Nat
  | .ms => 1
  | .s => 1000
  | .m => 60 * 1000
  | .h => 60 * 60 * 1000

/-- A number followed by a unit, with blanks in front of them. -/
structure DurationText where
  blanks : List Char
  sign : NumberSign
  digits : List Char
  gap : List Char
  unit : DurationUnit
  blank : ∀ c ∈ blanks, isspace c = true
  number : Digits digits
  gapBlank : ∀ c ∈ gap, isspace c = true

namespace DurationText

def text (d : DurationText) : List Char :=
  d.blanks ++ (d.sign.text ++ (d.digits ++ (d.gap ++ d.unit.text)))

/-- The milliseconds of the number as it is written. -/
def value (d : DurationText) : Int :=
  if d.sign = .minus then -(decimalValue d.digits * d.unit.factor : Nat)
  else (decimalValue d.digits * d.unit.factor : Nat)

/-- The milliseconds are a natural number of 64 bits. -/
def Fits (d : DurationText) : Prop := 0 ≤ d.value ∧ d.value < 2 ^ 64

/-- What `strtoull` makes of the number. -/
def scanned (d : DurationText) : Nat :=
  if u64Max < decimalValue d.digits then u64Max
  else if d.sign = .minus then u64Sub 0 (decimalValue d.digits) else decimalValue d.digits

/-- What `parse_duration` makes of the text. -/
def read (d : DurationText) : Nat := u64Mul d.scanned d.unit.factor

/-- The unit ends in front of the tail: minutes are not followed by an `s`. -/
def Ends (d : DurationText) (tail : List Char) : Prop := d.unit = .m → tail.head? ≠ some 's'

theorem factor_pos (unit : DurationUnit) : 0 < unit.factor := by
  cases unit <;> decide

/-- The text is read as it is written, if and only if its milliseconds are a natural number of
    64 bits. -/
theorem read_eq_iff (d : DurationText) : (d.read : Int) = d.value ↔ d.Fits := by
  have least := Nat.le_mul_of_pos_right (decimalValue d.digits) (factor_pos d.unit)
  have bounded : d.read < 2 ^ 64 := Nat.mod_lt _ (by decide)
  unfold Fits
  by_cases minus : d.sign = .minus
  · have value : d.value = -(decimalValue d.digits * d.unit.factor : Nat) := if_pos minus
    rw [value]
    by_cases zero : decimalValue d.digits = 0
    · have read : d.read = 0 := by
        simp [DurationText.read, scanned, zero, minus, u64Mul, u64Sub]
      simp [read, zero]
    · have positive : 0 < decimalValue d.digits := Nat.pos_of_ne_zero zero
      constructor <;> intro _ <;> omega
  · have value : d.value = (decimalValue d.digits * d.unit.factor : Nat) := if_neg minus
    rw [value]
    constructor
    · intro same
      omega
    · rintro ⟨-, small⟩
      have inRange : ¬u64Max < decimalValue d.digits := by
        unfold u64Max
        omega
      have read : d.read = u64Mul (decimalValue d.digits) d.unit.factor := by
        rw [DurationText.read, scanned, if_neg inRange, if_neg minus]
      rw [read, u64Mul_of_lt (by omega)]

end DurationText

theorem skipSpace_blanks {blanks : List Char} (blank : ∀ c ∈ blanks, isspace c = true)
    (rest : List Char) : skipSpace (blanks ++ rest) = skipSpace rest :=
  List.dropWhile_append_of_pos blank

/-- The sign and the digits that `strtoull` finds behind blanks. -/
theorem takeSign_text (sign : NumberSign) {digits : List Char} (number : Digits digits)
    (rest : List Char) :
    takeSign (skipSpace (sign.text ++ (digits ++ rest))) =
      (decide (sign = .minus), digits ++ rest) := by
  cases sign with
  | none => exact takeSign_number false number rest
  | minus => exact takeSign_number true number rest
  | plus =>
      rw [NumberSign.text, List.singleton_append, skipSpace_of_head _ (by decide)]
      rfl

theorem isdigit_of_isspace {c : Char} (space : isspace c = true) : isdigit c = false := by
  cases digit : isdigit c with
  | false => rfl
  | true =>
      obtain ⟨noSpace, -⟩ := digit_plain digit
      rw [noSpace] at space
      cases space

/-- The unit behind its blanks. -/
theorem skipSpace_unit {gap : List Char} (blank : ∀ c ∈ gap, isspace c = true)
    (unit : DurationUnit) (tail : List Char) :
    skipSpace (gap ++ (unit.text ++ tail)) = unit.text ++ tail := by
  rw [skipSpace_blanks blank]
  cases unit <;> exact skipSpace_of_head _ (by decide)

theorem unit_noDigit {gap : List Char} (blank : ∀ c ∈ gap, isspace c = true)
    (unit : DurationUnit) (tail : List Char) :
    ∀ c ∈ (gap ++ (unit.text ++ tail)).head?, isdigit c = false := by
  intro c first
  cases gap with
  | nil =>
      cases unit <;> obtain rfl := Option.some.inj first <;> rfl
  | cons b gap =>
      obtain rfl := Option.some.inj first
      exact isdigit_of_isspace (blank b List.mem_cons_self)

theorem parseDuration_text (d : DurationText) {tail : List Char} (ends : d.Ends tail) :
    parseDuration (d.text ++ tail) = .ok (d.read, tail) := by
  have scanned : strtoull (skipSpace (d.text ++ tail)) =
      some (d.scanned, d.gap ++ (d.unit.text ++ tail)) := by
    obtain ⟨taken, dropped⟩ := takeWhile_stop d.number.2 (unit_noDigit d.gapBlank d.unit tail)
    have split : d.text ++ tail =
        d.blanks ++ (d.sign.text ++ (d.digits ++ (d.gap ++ (d.unit.text ++ tail)))) := by
      simp [DurationText.text]
    rw [strtoull, skipSpace_idem, split, skipSpace_blanks d.blank, takeSign_text d.sign d.number]
    dsimp only
    rw [taken, dropped]
    cases digits : d.digits with
    | nil => exact absurd digits d.number.1
    | cons c rest => simp [DurationText.scanned, digits]
  rw [parseDuration, scanned]
  dsimp only
  rw [skipSpace_unit d.gapBlank]
  unfold DurationText.read
  cases unit : d.unit with
  | ms => rfl
  | s => rfl
  | h => rfl
  | m =>
      have notMs : startsWith ('m' :: tail) ['m', 's'] = false := by
        have next := ends unit
        cases tail with
        | nil => rfl
        | cons c rest =>
            have other : 's' ≠ c := fun same => next (congrArg some same.symm)
            simp [startsWith, List.isPrefixOf, other]
      rw [DurationUnit.text, List.singleton_append, notMs]
      rfl

/-! ## Where durations stand -/

/-- The forms of a window clause, with what they have for durations. -/
inductive WindowForm (α : Type) where
  | bare (size : α)
  | tumbling (size : α)
  | sliding (size slide : α)
  | session (timeout : α)

namespace WindowForm

def durations {α : Type} : WindowForm α → List α
  | bare size | tumbling size => [size]
  | sliding size slide => [size, slide]
  | session timeout => [timeout]

def map {α β : Type} (f : α → β) : WindowForm α → WindowForm β
  | bare size => bare (f size)
  | tumbling size => tumbling (f size)
  | sliding size slide => sliding (f size) (f slide)
  | session timeout => session (f timeout)

/-- The window of a form with these milliseconds. -/
def window : WindowForm Nat → Window
  | bare size | tumbling size => ⟨.tumbling, size, 0, 0⟩
  | sliding size slide => ⟨.sliding, size, slide, 0⟩
  | session timeout => ⟨.session, 0, 0, timeout⟩

end WindowForm

/-- At a position behind the keyword `window` stands a form, and the tail follows it. -/
inductive WindowAt : List Char → WindowForm DurationText → List Char → Prop where
  | bare {d : DurationText} {tail : List Char} : d.Ends tail →
      WindowAt (d.text ++ tail) (.bare d) tail
  | tumbling {pos opened closing tail : List Char} {d : DurationText} :
      matchKeyword "tumbling".toList pos = (true, opened) →
      consumeChar '(' opened = (true, d.text ++ closing) → d.Ends closing →
      consumeChar ')' closing = (true, tail) → WindowAt pos (.tumbling d) tail
  | sliding {pos opened comma closing tail : List Char} {d slide : DurationText} :
      matchKeyword "sliding".toList pos = (true, opened) →
      consumeChar '(' opened = (true, d.text ++ comma) → d.Ends comma →
      consumeChar ',' comma = (true, slide.text ++ closing) → slide.Ends closing →
      consumeChar ')' closing = (true, tail) → WindowAt pos (.sliding d slide) tail
  | session {pos opened closing tail : List Char} {d : DurationText} :
      matchKeyword "session".toList pos = (true, opened) →
      consumeChar '(' opened = (true, d.text ++ closing) → d.Ends closing →
      consumeChar ')' closing = (true, tail) → WindowAt pos (.session d) tail

/-- At a position stands a `correlate` statement, and in it a `within` clause with a duration. -/
inductive WithinAt [Pcre2] (input : List Char) :
    List Char → FilterNode → FilterNode → List Char → DurationText → List Char → Prop where
  | intro {pos first second third clause tail : List Char} {left right : FilterNode}
      {d : DurationText} :
      matchKeyword "correlate".toList pos = (true, first) →
      parseFilterExpr input ["with".toList, "within".toList, "|".toList] true first =
        .ok (left, second) →
      matchKeyword "with".toList second = (true, third) →
      parseFilterExpr input ["within".toList, "|".toList] true third = .ok (right, clause) →
      matchKeyword "within".toList clause = (true, d.text ++ tail) → d.Ends tail →
      WithinAt input pos left right clause d tail

/-- The text is read as the value if it fits, and rejected otherwise. -/
def AcceptsExactly {α : Type} (result : Parsed α) (fits : Prop) (value : α) (tail : List Char) :
    Prop :=
  (fits → result = .ok (value, tail)) ∧ (¬fits → ∃ message, result = .error message)

theorem acceptsExactly_ok_iff {α : Type} {actual value : α} {fits : Prop} {tail : List Char} :
    AcceptsExactly (.ok (actual, tail)) fits value tail ↔ fits ∧ actual = value := by
  constructor
  · rintro ⟨exact', rejects⟩
    by_cases isFit : fits
    · exact ⟨isFit, (Prod.mk.inj (Except.ok.inj (exact' isFit))).1⟩
    · obtain ⟨message, same⟩ := rejects isFit
      cases same
  · rintro ⟨isFit, rfl⟩
    exact ⟨fun _ => rfl, fun unfit => absurd isFit unfit⟩

/-- Where one keyword is read, one that begins with other letters is not. -/
theorem matchKeyword_apart {keyword other pos rest : List Char}
    (apart : (keyword.map Char.toLower).isPrefixOf (other.map Char.toLower) = false ∧
      (other.map Char.toLower).isPrefixOf (keyword.map Char.toLower) = false)
    (found : matchKeyword keyword pos = (true, rest)) :
    matchKeyword other pos = (false, skipSpace pos) := by
  apply matchKeyword_absent
  cases there : startsWithCase (skipSpace pos) other with
  | false => rfl
  | true =>
      have here : startsWithCase (skipSpace pos) keyword = true := by
        rw [matchKeyword] at found
        split at found
        · next both => exact (Bool.and_eq_true _ _ ▸ both).1
        · cases found
      rw [startsWithCase, startsWith, List.isPrefixOf_iff_prefix] at here there
      rcases List.prefix_or_prefix_of_prefix here there with shorter | longer
      · rw [← List.isPrefixOf_iff_prefix, apart.1] at shorter
        cases shorter
      · rw [← List.isPrefixOf_iff_prefix, apart.2] at longer
        cases longer

theorem matchKeyword_skipSpace (keyword pos : List Char) :
    matchKeyword keyword (skipSpace pos) = matchKeyword keyword pos := by
  rw [matchKeyword, skipSpace_idem]
  rfl

/-- A number begins with a sign or a digit. -/
theorem lead_number (d : DurationText) (tail : List Char) :
    ∃ c, lead (d.text ++ tail) = some c ∧ (c = '+' ∨ c = '-' ∨ isdigit c = true) := by
  have split : skipSpace (d.text ++ tail) =
      skipSpace (d.sign.text ++ (d.digits ++ (d.gap ++ (d.unit.text ++ tail)))) := by
    rw [← skipSpace_blanks d.blank
      (d.sign.text ++ (d.digits ++ (d.gap ++ (d.unit.text ++ tail))))]
    simp [DurationText.text]
  rw [lead, split]
  cases sign : d.sign with
  | plus =>
      refine ⟨'+', ?_, .inl rfl⟩
      rw [NumberSign.text, List.singleton_append, skipSpace_of_head _ (by decide)]
      rfl
  | minus =>
      refine ⟨'-', ?_, .inr (.inl rfl)⟩
      rw [NumberSign.text, List.singleton_append, skipSpace_of_head _ (by decide)]
      rfl
  | none =>
      obtain ⟨nonempty, digits⟩ := d.number
      cases first : d.digits with
      | nil => exact absurd first nonempty
      | cons c rest =>
          have digit : isdigit c = true := digits c (first ▸ List.mem_cons_self)
          refine ⟨c, ?_, .inr (.inr digit)⟩
          rw [NumberSign.text, List.nil_append, List.cons_append,
            skipSpace_of_head _ (digit_plain digit).1, List.head?_cons, Option.map_some,
            digit_toLower digit]

/-- No keyword of a window begins a number. -/
theorem matchKeyword_number {keyword : List Char} (d : DurationText) (tail : List Char)
    (letter : keyword.head? = some 't' ∨ keyword.head? = some 's') :
    matchKeyword keyword (d.text ++ tail) = (false, skipSpace (d.text ++ tail)) := by
  obtain ⟨c, leads, shape⟩ := lead_number d tail
  apply matchKeyword_other
  · rintro rfl
    rcases letter with empty | empty <;> cases empty
  · rw [leads]
    intro same
    have first : c = 't' ∨ c = 's' := by
      rcases letter with t | s
      · rw [t] at same
        exact .inl (Option.some.inj same)
      · rw [s] at same
        exact .inr (Option.some.inj same)
    rcases first with rfl | rfl <;> revert shape <;> decide

/-- Every form of a window is accepted, with what is read of its durations. -/
theorem parseWindow_form {pos tail : List Char} {form : WindowForm DurationText}
    (stands : WindowAt pos form tail) :
    parseWindow pos = .ok ((form.map DurationText.read).window, tail) := by
  cases stands with
  | @bare d tail ends =>
      have letter : ∀ keyword ∈ ["tumbling".toList, "sliding".toList, "session".toList],
          matchKeyword keyword (d.text ++ tail) = (false, skipSpace (d.text ++ tail)) := by
        intro keyword member
        apply matchKeyword_number
        simp only [List.mem_cons, List.not_mem_nil, or_false] at member
        rcases member with rfl | rfl | rfl <;> decide
      have read : parseDuration (skipSpace (d.text ++ tail)) = .ok (d.read, tail) := by
        rw [← parseDuration_text d ends, parseDuration, parseDuration, skipSpace_idem]
      rw [parseWindow, letter _ (by simp)]
      dsimp only
      rw [matchKeyword_skipSpace, letter _ (by simp)]
      dsimp only
      rw [matchKeyword_skipSpace, letter _ (by simp)]
      dsimp only
      rw [read]
      rfl
  | @tumbling _ opened closing _ d word opens ends closes =>
      rw [parseWindow, word]
      dsimp only
      rw [parseWindowSize, opens]
      dsimp only
      rw [parseDuration_text d ends]
      show closeWith _ _ closing = _
      rw [closeWith, closes]
      rfl
  | @sliding _ opened comma closing _ d slide word opens ends second endsSlide closes =>
      have other : matchKeyword "tumbling".toList pos = (false, skipSpace pos) :=
        matchKeyword_apart (by decide) word
      rw [parseWindow, other]
      dsimp only
      rw [matchKeyword_skipSpace, word]
      dsimp only
      rw [parseWindowSize, opens]
      dsimp only
      rw [parseDuration_text d ends]
      show NqlParser.andThen (parseSlide comma) _ = _
      rw [parseSlide, second]
      dsimp only
      rw [parseDuration_text slide endsSlide]
      show closeWith _ _ closing = _
      rw [closeWith, closes]
      rfl
  | @session _ opened closing _ d word opens ends closes =>
      have noTumbling : matchKeyword "tumbling".toList pos = (false, skipSpace pos) :=
        matchKeyword_apart (by decide) word
      have noSliding : matchKeyword "sliding".toList pos = (false, skipSpace pos) :=
        matchKeyword_apart (by decide) word
      rw [parseWindow, noTumbling]
      dsimp only
      rw [matchKeyword_skipSpace, noSliding]
      dsimp only
      rw [matchKeyword_skipSpace, word]
      dsimp only
      rw [parseWindowSize, opens]
      dsimp only
      rw [parseDuration_text d ends]
      show closeWith _ _ closing = _
      rw [closeWith, closes]
      rfl

/-- What a `correlate` statement makes of its `within` clause; zero stands for the default. -/
theorem parseCorrelate_clause [Pcre2] {input pos clause tail : List Char} {left right : FilterNode}
    {d : DurationText} (stands : WithinAt input pos left right clause d tail) :
    parseCorrelate input pos = some
      (NqlParser.andThen (parseClause "within" parseDuration 0 clause) fun within pos =>
        .ok (.correlate ⟨left, right, if within = 0 then defaultCorrelateWithinMs else within⟩,
          pos)) := by
  obtain ⟨correlate, first, withWord, second, -, -⟩ := stands
  rw [parseCorrelate, correlate]
  dsimp only
  rw [first]
  dsimp only [NqlParser.andThen]
  rw [withWord]
  dsimp only
  rw [second]

/-- The duration after `within` is accepted. -/
theorem parseClause_within [Pcre2] {input pos clause tail : List Char} {left right : FilterNode}
    {d : DurationText} (stands : WithinAt input pos left right clause d tail) :
    parseClause "within" parseDuration 0 clause = .ok (d.read, tail) := by
  obtain ⟨-, -, -, -, within, ends⟩ := stands
  rw [parseClause, within]
  exact parseDuration_text d ends

/-- The windows of a form are told apart by their durations. -/
theorem window_map_eq_iff (form : WindowForm DurationText) (f g : DurationText → Nat) :
    (form.map f).window = (form.map g).window ↔ ∀ d ∈ form.durations, f d = g d := by
  cases form <;> simp [WindowForm.map, WindowForm.window, WindowForm.durations]

/-- A text of a duration is read as written, or rejected, if and only if its milliseconds are a
    natural number of 64 bits. A `correlate` statement takes its window from the duration after
    `within`. -/
theorem durations_exact_iff [Pcre2] :
    (∀ pos form tail, WindowAt pos form tail →
      (AcceptsExactly (parseWindow pos) (∀ d ∈ form.durations, d.Fits)
          (form.map fun d => d.value.toNat).window tail ↔
        ∀ d ∈ form.durations, d.Fits)) ∧
      ∀ input pos left right clause d tail, WithinAt input pos left right clause d tail →
        (AcceptsExactly (parseClause "within" parseDuration 0 clause) d.Fits d.value.toNat tail ↔
          d.Fits) ∧
        parseCorrelate input pos = some
          (NqlParser.andThen (parseClause "within" parseDuration 0 clause) fun within pos =>
            .ok (.correlate ⟨left, right,
              if within = 0 then defaultCorrelateWithinMs else within⟩, pos)) := by
  have exactly : ∀ {d : DurationText}, d.Fits → d.read = d.value.toNat := by
    intro d fits
    have same := d.read_eq_iff.mpr fits
    omega
  constructor
  · intro pos form tail stands
    rw [parseWindow_form stands, acceptsExactly_ok_iff, and_iff_left_iff_imp, window_map_eq_iff]
    exact fun fits d member => exactly (fits d member)
  · intro input pos left right clause d tail stands
    refine ⟨?_, parseCorrelate_clause stands⟩
    rw [parseClause_within stands, acceptsExactly_ok_iff, and_iff_left_iff_imp]
    exact exactly

/-- `5m`. -/
def fiveMinutes : DurationText where
  blanks := []
  sign := .none
  digits := ['5']
  gap := []
  unit := .m
  blank := nofun
  number := digits_five
  gapBlank := nofun

theorem durations_exact_iff_fiveMinutes :
    AcceptsExactly (parseWindow "tumbling(5m) | *".toList)
      (∀ d ∈ (WindowForm.tumbling fiveMinutes).durations, d.Fits) ⟨.tumbling, 300000, 0, 0⟩
      " | *".toList := by
  let := literalPcre2
  have stands : WindowAt "tumbling(5m) | *".toList (.tumbling fiveMinutes) " | *".toList :=
    @WindowAt.tumbling _ "(5m) | *".toList ") | *".toList _ _ (by decide) (by decide)
      (fun _ => by decide) (by decide)
  refine (durations_exact_iff.1 _ _ _ stands).mpr ?_
  intro d member
  rw [List.mem_singleton.mp member]
  exact ⟨by decide, by decide⟩

/-- More hours than `2 ^ 64` milliseconds have. -/
def manyHours : DurationText where
  blanks := []
  sign := .none
  digits := ['5', '1', '2', '4', '0', '9', '5', '5', '7', '6', '0', '3', '1']
  gap := []
  unit := .h
  blank := nofun
  number := ⟨nofun, by simp [isdigit]⟩
  gapBlank := nofun

/-- They are accepted, as a window of 34 minutes. -/
theorem manyHours_accepted :
    WindowAt "tumbling(5124095576031h)".toList (.tumbling manyHours) [] ∧
      parseWindow "tumbling(5124095576031h)".toList = .ok (⟨.tumbling, 2048384, 0, 0⟩, []) ∧
      ¬AcceptsExactly (parseWindow "tumbling(5124095576031h)".toList)
        (∀ d ∈ (WindowForm.tumbling manyHours).durations, d.Fits)
        ((WindowForm.tumbling manyHours).map fun d => d.value.toNat).window [] := by
  have stands : WindowAt "tumbling(5124095576031h)".toList (.tumbling manyHours) [] :=
    @WindowAt.tumbling _ "(5124095576031h)".toList ")".toList _ _ (by decide) (by decide)
      nofun (by decide)
  have parsed := parseWindow_form stands
  refine ⟨stands, ?_, ?_⟩
  · rw [parsed]
    rfl
  · rw [parsed, acceptsExactly_ok_iff]
    rintro ⟨fits, -⟩
    have small := (fits manyHours (List.mem_singleton_self _)).2
    revert small
    decide

end NqlParser

end Nblex
