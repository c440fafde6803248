import Nblex.Core.FilterEngine.Proofs.FilterReads
import Nblex.Parsers.NqlReads
import Nblex.Parsers.Proofs.FilterScan

/-!
# Words and filters of nQL on pointers

On the pointers into a text without a NUL the functions that read words, durations and embedded
filters give the results that they have on the rests of the text, or `NULL` and the message.
-/

namespace Nblex

namespace NqlReads

open NqlParser (Parsed)

/-- The result of a parse and its place, or the message of the error and `NULL`. -/
def Parses {α : Type} (text : List Char) (start : Nat) :
    Parsed α → Except Fault (Option α × Parser) → Prop
  | .ok (value, rest), run =>
      ∃ pos, run = .ok (some value, ⟨pos, none⟩) ∧ PointsAt text pos rest ∧ start ≤ pos
  | .error message, run => ∃ pos, run = .ok (none, ⟨pos, some message⟩)

/-- A word stands there in both. -/
def Found (text : List Char) (start : Nat) (read : Bool × List Char)
    (run : Except Fault (Bool × Parser)) : Prop :=
  ∃ pos rest, read = (true, rest) ∧ run = .ok (true, ⟨pos, none⟩) ∧ PointsAt text pos rest ∧
    start < pos

/-- A word stands there in neither. -/
def Missing (text : List Char) (start : Nat) (read : Bool × List Char)
    (run : Except Fault (Bool × Parser)) : Prop :=
  ∃ pos rest, read = (false, rest) ∧ run = .ok (false, ⟨pos, none⟩) ∧ PointsAt text pos rest ∧
    start ≤ pos

variable {text rest : List Char} {pos start turns : Nat}

/-! ## Results -/

theorem Parses.later {α : Type} {read : Parsed α} {run : Except Fault (Option α × Parser)}
    (parses : Parses text pos read run) (later : start ≤ pos) : Parses text start read run := by
  cases read with
  | error message => exact parses
  | ok result =>
      obtain ⟨stop, ran, points, after⟩ := parses
      exact ⟨stop, ran, points, later.trans after⟩

theorem parses_ok {α : Type} (value : α) (points : PointsAt text pos rest) :
    Parses text pos (.ok (value, rest)) (pure (some value, ⟨pos, none⟩)) :=
  ⟨pos, rfl, points, le_rfl⟩

theorem parserSetError_short {message : String} (short : message.length ≤ 255) :
    parserSetError ⟨pos, none⟩ message = ⟨pos, some message⟩ := by
  have whole : message.toList.take 255 = message.toList := List.take_of_length_le short
  rw [parserSetError, whole, String.ofList_toList]

/-- The length of a literal is that of its characters. -/
theorem ofList_length_le {chars : List Char} {limit : Nat} (short : chars.length ≤ limit) :
    (String.ofList chars).length ≤ limit := by
  rwa [String.length_ofList]

theorem parses_fail {α : Type} {message : String} (short : message.length ≤ 255) :
    Parses (α := α) text start (.error message) (fail message ⟨pos, none⟩) :=
  ⟨pos, by rw [fail, parserSetError_short short, pure_eq_ok]⟩

/-- One parse behind another. -/
theorem Parses.andThen {α β : Type} {read : Parsed α} {run : Except Fault (Option α × Parser)}
    {next : α → List Char → Parsed β} {next' : α → Parser → Except Fault (Option β × Parser)}
    (parses : Parses text start read run)
    (goesOn : ∀ value {pos rest}, PointsAt text pos rest → start ≤ pos →
      Parses text pos (next value rest) (next' value ⟨pos, none⟩)) :
    Parses text start (NqlParser.andThen read next) (unlessNull run next') := by
  cases read with
  | error message =>
      obtain ⟨stop, ran⟩ := parses
      rw [ran]
      exact ⟨stop, rfl⟩
  | ok result =>
      obtain ⟨value, tail⟩ := result
      obtain ⟨stop, ran, points, after⟩ := parses
      rw [ran]
      exact (goesOn value points after).later after

/-- A result that is passed on as it is. -/
theorem Parses.passedOn {α : Type} {read : Parsed α} {run : Except Fault (Option α × Parser)}
    (parses : Parses text start read run) :
    Parses text start read (unlessNull run fun value parser => pure (some value, parser)) := by
  cases read with
  | error message =>
      obtain ⟨stop, ran⟩ := parses
      rw [ran]
      exact ⟨stop, rfl⟩
  | ok result =>
      obtain ⟨stop, ran, points, after⟩ := parses
      rw [ran]
      exact ⟨stop, rfl, points, after⟩

/-! ## Words -/

variable (terminated : nul ∉ text)
include terminated

theorem skipWhitespace_points (points : PointsAt text pos rest) (enough : text.length < turns) :
    ∃ pos', skipWhitespace text turns ⟨pos, none⟩ = .ok ⟨pos', none⟩ ∧
      PointsAt text pos' (skipSpace rest) ∧ pos ≤ pos' := by
  obtain ⟨scanned, behind⟩ := points.scanWhile terminated isspace turns
    (points.suffix.length_le.trans_lt enough)
  refine ⟨_, ?_, behind, Nat.le_add_right _ _⟩
  rw [skipWhitespace, scanned]
  rfl

theorem consumeChar_cases (expected : Char) (points : PointsAt text pos rest)
    (enough : text.length < turns) (visible : expected ≠ nul) :
    Found text pos (NqlParser.consumeChar expected rest)
        (consumeChar text turns expected ⟨pos, none⟩) ∨
      Missing text pos (NqlParser.consumeChar expected rest)
        (consumeChar text turns expected ⟨pos, none⟩) := by
  obtain ⟨pos', skipped, behind, after⟩ := skipWhitespace_points terminated points enough
  rw [consumeChar, skipped, ok_bind, behind.read, ok_bind, NqlParser.consumeChar]
  cases start : skipSpace rest with
  | nil =>
      rw [start] at behind
      right
      refine ⟨pos', [], rfl, ?_, behind, after⟩
      rw [List.headD_nil, if_neg visible.symm]
      rfl
  | cons c tail =>
      rw [start] at behind
      rw [List.headD_cons]
      by_cases same : c = expected
      · left
        refine ⟨pos' + 1, tail, if_pos same, ?_, behind.next, Nat.lt_succ_of_le after⟩
        rw [if_pos same]
        rfl
      · right
        refine ⟨pos', c :: tail, if_neg same, ?_, behind, after⟩
        rw [if_neg same]
        rfl

/-- A keyword can be compared at any place of the text. -/
def isComparable (keyword : List Char) : Bool :=
  keyword ≠ [] && !(keyword.map Char.toLower).contains nul

omit terminated in
theorem isComparable_apart {keyword : List Char} (word : isComparable keyword) :
    Char.toLower nul ∉ keyword.map Char.toLower := by
  have lower : Char.toLower nul = nul := by decide
  rw [isComparable, Bool.and_eq_true] at word
  rw [lower]
  simpa using word.2

omit terminated in
theorem compare_keyword {keyword : List Char} (word : isComparable keyword)
    (points : PointsAt text pos rest) :
    matchesAt text Char.toLower pos keyword = .ok (NqlParser.startsWithCase rest keyword) :=
  points.matches Char.toLower keyword (isComparable_apart word)

omit terminated in
theorem startsWithCase_length_le {keyword : List Char}
    (starts : NqlParser.startsWithCase rest keyword = true) : keyword.length ≤ rest.length := by
  have shorter := startsWith_length_le starts
  rwa [List.length_map, List.length_map] at shorter

theorem endsKeyword_points (points : PointsAt text pos rest) :
    endsKeyword (rest.headD nul) = NqlParser.endsKeyword rest := by
  cases rest with
  | nil => rfl
  | cons c rest =>
      have notNul := points.ne_nul terminated
      simp [endsKeyword, NqlParser.endsKeyword, notNul]

theorem matchKeyword_cases (keyword : String) (word : isComparable keyword.toList)
    (points : PointsAt text pos rest) (enough : text.length < turns) :
    Found text pos (NqlParser.matchKeyword keyword.toList rest)
        (matchKeyword text turns keyword.toList ⟨pos, none⟩) ∨
      Missing text pos (NqlParser.matchKeyword keyword.toList rest)
        (matchKeyword text turns keyword.toList ⟨pos, none⟩) := by
  obtain ⟨pos', skipped, behind, after⟩ := skipWhitespace_points terminated points enough
  rw [matchKeyword, skipped, ok_bind, compare_keyword word behind, ok_bind,
    NqlParser.matchKeyword]
  cases starts : NqlParser.startsWithCase (skipSpace rest) keyword.toList with
  | false => exact .inr ⟨pos', skipSpace rest, rfl, rfl, behind, after⟩
  | true =>
      have atEnd := behind.advance (startsWithCase_length_le starts)
      rw [if_pos rfl, atEnd.read, ok_bind, endsKeyword_points terminated atEnd, Bool.true_and]
      cases NqlParser.endsKeyword ((skipSpace rest).drop keyword.toList.length) with
      | false => exact .inr ⟨pos', skipSpace rest, rfl, rfl, behind, after⟩
      | true =>
          have notEmpty : 0 < keyword.toList.length := by
            rw [isComparable, Bool.and_eq_true, decide_eq_true_eq] at word
            exact List.length_pos_of_ne_nil word.1
          exact .inl ⟨pos' + keyword.toList.length, _, rfl, rfl, atEnd, by omega⟩

/-! ## Names and durations -/

theorem parseField_parses {message : String} (short : message.length ≤ 255)
    (points : PointsAt text pos rest) (enough : text.length < turns) :
    Parses text pos (NqlParser.parseField message rest)
      (parseField text turns message ⟨pos, none⟩) := by
  obtain ⟨pos', skipped, behind, after⟩ := skipWhitespace_points terminated points enough
  rw [parseField, parseIdentifier, skipped, ok_bind, behind.read, ok_bind, NqlParser.parseField,
    NqlParser.parseIdentifier]
  cases start : skipSpace rest with
  | nil => exact parses_fail short
  | cons c tail =>
      rw [start] at behind
      rw [List.headD_cons]
      dsimp only
      by_cases named : (NqlParser.isalpha c || decide (c = '_')) = true
      · obtain ⟨scanned, stop⟩ := behind.scanWhile terminated isFieldChar turns
          (behind.suffix.length_le.trans_lt enough)
        have prefixed := List.takeWhile_prefix (l := c :: tail) isFieldChar
        have copied := behind.copy _ prefixed.length_le
        rw [← List.prefix_iff_eq_take.mp prefixed] at copied
        rw [if_pos named, if_pos named, scanned, ok_bind, Nat.add_sub_cancel_left, copied]
        exact ⟨_, rfl, stop, after.trans (Nat.le_add_right _ _)⟩
      · rw [if_neg named, if_neg named]
        exact parses_fail short

omit terminated in
theorem strtoull_suffix {value : Nat} {tail : List Char}
    (read : NqlParser.strtoull rest = some (value, tail)) : tail <:+ rest := by
  have unsigned := (takeSign_suffix (skipSpace rest)).trans (skipSpace_suffix rest)
  rw [NqlParser.strtoull] at read
  generalize takeSign (skipSpace rest) = signed at read unsigned
  dsimp only at read
  split at read
  · exact absurd read (Option.some_ne_none _).symm
  · obtain ⟨-, rfl⟩ := Prod.mk.inj (Option.some.inj read)
    exact (List.dropWhile_suffix _).trans unsigned

omit terminated in
theorem atMilliseconds_points (points : PointsAt text pos rest) :
    atMilliseconds text pos = .ok (startsWith rest ['m', 's']) := by
  rw [atMilliseconds, points.read, ok_bind]
  cases rest with
  | nil => rfl
  | cons c rest =>
      rw [List.headD_cons]
      by_cases first : c = 'm'
      · subst first
        rw [if_pos rfl, points.next.read, ok_bind]
        cases rest with
        | nil => rfl
        | cons d rest =>
            by_cases second : d = 's'
            · subst second
              rfl
            · have different : d ≠ 's' ∧ 's' ≠ d := ⟨second, Ne.symm second⟩
              simp [startsWith, List.isPrefixOf, second, different, pure_eq_ok]
      · have different : c ≠ 'm' ∧ 'm' ≠ c := ⟨first, Ne.symm first⟩
        simp [startsWith, List.isPrefixOf, first, different, pure_eq_ok]

omit terminated in
/-- A unit of one letter stands where the letter is read. -/
theorem startsWith_letter {letter : Char} (visible : letter ≠ nul) (rest : List Char) :
    startsWith rest [letter] = decide (rest.headD nul = letter) := by
  cases rest with
  | nil => exact (decide_eq_false visible.symm).symm
  | cons c rest => simp [startsWith, List.isPrefixOf, eq_comm, beq_eq_decide]

theorem durationOrNull_parses (points : PointsAt text pos rest) (enough : text.length < turns) :
    Parses text pos (NqlParser.parseDuration rest) (durationOrNull text turns ⟨pos, none⟩) := by
  obtain ⟨pos', skipped, behind, after⟩ := skipWhitespace_points terminated points enough
  rw [durationOrNull, parseDuration, skipped, ok_bind, behind.string, ok_bind,
    NqlParser.parseDuration]
  cases read : NqlParser.strtoull (skipSpace rest) with
  | none => exact ⟨pos', rfl⟩
  | some number =>
      obtain ⟨value, tail⟩ := number
      have atTail := behind.tail (strtoull_suffix read)
      have shorter := (strtoull_suffix read).length_le
      have length := behind.length
      obtain ⟨unit, blanks, atUnit, afterUnit⟩ :=
        skipWhitespace_points terminated atTail enough
      have passed : pos ≤ unit := by omega
      dsimp only
      rw [blanks, ok_bind, atMilliseconds_points atUnit, ok_bind, atUnit.read, ok_bind,
        startsWith_letter (by decide), startsWith_letter (by decide), startsWith_letter (by decide)]
      cases milliseconds : startsWith (skipSpace tail) ['m', 's'] with
      | true =>
          exact ⟨unit + 2, rfl, atUnit.advance (startsWith_length_le milliseconds),
            passed.trans (Nat.le_add_right _ _)⟩
      | false =>
          have letter : ∀ {c : Char}, c ≠ nul → (skipSpace tail).headD nul = c →
              PointsAt text (unit + 1) ((skipSpace tail).drop 1) := by
            intro c visible isLetter
            refine atUnit.advance (List.length_pos_of_ne_nil fun ends => visible ?_)
            rw [← isLetter, ends, List.headD_nil]
          have behindUnit : pos ≤ unit + 1 := passed.trans (Nat.le_succ _)
          simp only [decide_eq_true_eq, Bool.false_eq_true, if_false]
          by_cases seconds : (skipSpace tail).headD nul = 's'
          · rw [if_pos seconds, if_pos seconds]
            exact ⟨unit + 1, rfl, letter (by decide) seconds, behindUnit⟩
          rw [if_neg seconds, if_neg seconds]
          by_cases minutes : (skipSpace tail).headD nul = 'm'
          · rw [if_pos minutes, if_pos minutes]
            exact ⟨unit + 1, rfl, letter (by decide) minutes, behindUnit⟩
          rw [if_neg minutes, if_neg minutes]
          by_cases hours : (skipSpace tail).headD nul = 'h'
          · rw [if_pos hours, if_pos hours]
            exact ⟨unit + 1, rfl, letter (by decide) hours, behindUnit⟩
          rw [if_neg hours, if_neg hours]
          exact ⟨unit, rfl⟩

/-! ## Embedded filters -/

/-- The character in front of a pointer, if there is one. -/
def Before (text : List Char) (pos : Nat) : Option Char → Prop
  | none => pos = 0
  | some c => ∃ rest, 0 < pos ∧ PointsAt text (pos - 1) (c :: rest)

omit terminated in
theorem before_next {c : Char} (points : PointsAt text pos (c :: rest)) :
    Before text (pos + 1) (some c) :=
  ⟨rest, Nat.succ_pos pos, points⟩

omit terminated in
theorem before_charBefore (points : PointsAt text pos rest) :
    Before text pos (NqlParser.charBefore text rest) := by
  have length := points.length
  have place : text.length - rest.length = pos := by omega
  rw [NqlParser.charBefore, place]
  cases pos with
  | zero => exact rfl
  | succ pos =>
      have inside : pos < text.length := by omega
      have last : (text.take (pos + 1)).getLast? = some text[pos] := by
        rw [List.getLast?_take, if_neg (Nat.succ_ne_zero pos), Nat.add_sub_cancel,
          List.getElem?_eq_getElem inside]
        rfl
      rw [last]
      refine ⟨text.drop (pos + 1), Nat.succ_pos pos, by omega, ?_⟩
      rw [Nat.add_sub_cancel]
      exact List.drop_eq_getElem_cons inside

omit terminated in
theorem Before.read {prev : Option Char} (before : Before text pos prev) :
    charInFront text pos = .ok (prev.getD nul) := by
  rw [charInFront]
  cases prev with
  | none => exact if_pos before
  | some c =>
      obtain ⟨rest, behind, points⟩ := before
      have notFirst : pos ≠ 0 := Nat.ne_of_gt behind
      rw [if_neg notFirst, readBack, if_neg notFirst, points.read_cons]
      rfl

theorem Before.beginsKeyword {prev : Option Char} (before : Before text pos prev) :
    NqlReads.beginsKeyword (prev.getD nul) = NqlParser.beginsKeyword prev := by
  cases prev with
  | none => rfl
  | some c =>
      obtain ⟨rest, -, points⟩ := before
      have notNul := points.ne_nul terminated
      simp [NqlReads.beginsKeyword, NqlParser.beginsKeyword, notNul]

theorem keywordAtPosition_points {keyword : List Char} (word : isComparable keyword)
    {prev : Option Char} (before : Before text pos prev) (points : PointsAt text pos rest) :
    keywordAtPosition text pos keyword = .ok (NqlParser.keywordAtPosition prev rest keyword) := by
  rw [keywordAtPosition, compare_keyword word points, ok_bind, NqlParser.keywordAtPosition]
  cases starts : NqlParser.startsWithCase rest keyword with
  | false => rfl
  | true =>
      have atEnd := points.advance (startsWithCase_length_le starts)
      rw [if_pos rfl, before.read, ok_bind, before.beginsKeyword terminated, Bool.true_and]
      cases NqlParser.beginsKeyword prev with
      | false => rfl
      | true =>
          rw [if_pos rfl, atEnd.read, ok_bind, endsKeyword_points terminated atEnd]
          rfl

theorem anyKeyword_points {keywords : List (List Char)}
    (words : ∀ keyword ∈ keywords, isComparable keyword = true) {prev : Option Char}
    (before : Before text pos prev) (points : PointsAt text pos rest) :
    anyKeyword text pos keywords =
      .ok (keywords.any (NqlParser.keywordAtPosition prev rest)) := by
  induction keywords with
  | nil => rfl
  | cons keyword keywords ih =>
      rw [anyKeyword, keywordAtPosition_points terminated (words _ List.mem_cons_self) before
        points, ok_bind, List.any_cons]
      cases NqlParser.keywordAtPosition prev rest keyword with
      | true => rfl
      | false => exact ih fun keyword member => words keyword (List.mem_cons_of_mem _ member)

/-- A loop stops behind what is scanned. -/
def Scans (rest : List Char) (current : Nat) (scanned : List Char × List Char)
    (run : Except Fault Nat) : Prop :=
  run = .ok (current + scanned.1.length) ∧ scanned.1 ++ scanned.2 = rest

omit terminated in
theorem Scans.keep {c : Char} {current : Nat} {scanned : List Char × List Char}
    {run : Except Fault Nat} (scans : Scans rest (current + 1) scanned run) :
    Scans (c :: rest) current (NqlParser.keep c scanned) run := by
  obtain ⟨ran, divides⟩ := scans
  refine ⟨?_, congrArg (c :: ·) divides⟩
  rw [ran, NqlParser.keep, List.length_cons, Nat.add_right_comm, Nat.add_assoc]

omit terminated in
theorem scans_stop (rest : List Char) (current : Nat) :
    Scans rest current ([], rest) (.ok current) := ⟨rfl, rfl⟩

theorem escapes_points {c : Char} (points : PointsAt text pos (c :: rest)) :
    escapes text c pos = .ok (decide (c = '\\' ∧ rest ≠ [])) := by
  rw [escapes]
  by_cases backslash : c = '\\'
  · rw [if_pos backslash, points.next.read, ok_bind]
    have ends := points.next.headD_eq_nul_iff terminated
    simp [backslash, ends, pure_eq_ok, -List.headD_eq_head?_getD]
  · simp [backslash, pure_eq_ok]

/-- The turn of the loop inside of a quoted string. -/
theorem scanFilter_inQuote {keywords : List (List Char)} {stopOnPipe : Bool} {quote c : Char}
    {depth left : Nat} (isQuote : NqlParser.isQuote quote = true)
    (points : PointsAt text pos (c :: rest)) :
    scanFilter text keywords stopOnPipe (left + 1) (some quote = some '\'')
        (some quote = some '"') depth pos =
      if c = '\\' ∧ rest ≠ [] then
        scanFilter text keywords stopOnPipe left (some quote = some '\'') (some quote = some '"')
          depth (pos + 2)
      else
        scanFilter text keywords stopOnPipe left
          ((if c = quote then none else some quote) = some '\'')
          ((if c = quote then none else some quote) = some '"') depth (pos + 1) := by
  rw [scanFilter, points.read_cons, ok_bind, if_neg (points.ne_nul terminated),
    escapes_points terminated points]
  obtain rfl | rfl := NqlParser.isQuote_cases isQuote
  · by_cases escape : c = '\\' ∧ rest ≠ []
    · simp [escape, ok_bind]
    · by_cases closes : c = '\'' <;> simp [escape, closes, ok_bind]
  · by_cases escape : c = '\\' ∧ rest ≠ []
    · simp [escape, ok_bind]
    · by_cases closes : c = '"' <;> simp [escape, closes, ok_bind]

theorem scanFilter_quote {keywords : List (List Char)} {stopOnPipe : Bool} {c : Char}
    {depth left : Nat} (points : PointsAt text pos (c :: rest))
    (opens : NqlParser.isQuote c = true) :
    scanFilter text keywords stopOnPipe (left + 1) false false depth pos =
      scanFilter text keywords stopOnPipe left (some c = some '\'') (some c = some '"') depth
        (pos + 1) := by
  rw [scanFilter, points.read_cons, ok_bind, if_neg (points.ne_nul terminated)]
  obtain rfl | rfl := NqlParser.isQuote_cases opens
  · rfl
  · rfl

omit terminated in
theorem scanFilter_open {keywords : List (List Char)} {stopOnPipe : Bool} {depth left : Nat}
    (points : PointsAt text pos ('(' :: rest)) :
    scanFilter text keywords stopOnPipe (left + 1) false false depth pos =
      scanFilter text keywords stopOnPipe left false false (depth + 1) (pos + 1) := by
  rw [scanFilter, points.read_cons, ok_bind]
  rfl

omit terminated in
theorem scanFilter_close {keywords : List (List Char)} {stopOnPipe : Bool} {depth left : Nat}
    (points : PointsAt text pos (')' :: rest)) :
    scanFilter text keywords stopOnPipe (left + 1) false false depth pos =
      scanFilter text keywords stopOnPipe left false false (depth - 1) (pos + 1) := by
  rw [scanFilter, points.read_cons, ok_bind]
  rfl

/-- The loop outside of quoted strings, at a character that is neither a quote nor a
    parenthesis. -/
theorem scanFilter_plain {keywords : List (List Char)}
    (words : ∀ keyword ∈ keywords, isComparable keyword = true) (stopOnPipe : Bool)
    {prev : Option Char} {c : Char} (depth left : Nat) (before : Before text pos prev)
    (points : PointsAt text pos (c :: rest)) (ordinary : NqlParser.isOrdinary c = true) :
    scanFilter text keywords stopOnPipe (left + 1) false false depth pos =
      if stopOnPipe ∧ c = '|' ∧ depth = 0 then pure pos
      else if depth = 0 ∧ keywords.any (NqlParser.keywordAtPosition prev (c :: rest)) then pure pos
      else scanFilter text keywords stopOnPipe left false false depth (pos + 1) := by
  obtain ⟨noQuote, noOpen, noClose⟩ := NqlParser.isOrdinary_iff.mp ordinary
  obtain ⟨noSingle, noDouble⟩ := not_or.mp noQuote
  rw [scanFilter, points.read_cons, ok_bind, if_neg (points.ne_nul terminated),
    if_neg Bool.false_ne_true, if_neg Bool.false_ne_true, if_neg noSingle, if_neg noDouble,
    if_neg noOpen, if_neg noClose, anyKeyword_points terminated words before points, ok_bind]
  by_cases top : depth = 0
  · simp [top]
  · simp [top]

/-- The loop of `parse_filter_expr` runs over what is scanned. -/
theorem scanFilter_scans {keywords : List (List Char)}
    (words : ∀ keyword ∈ keywords, isComparable keyword = true) (stopOnPipe : Bool) (left : Nat) :
    ∀ {pos depth : Nat} {rest : List Char} {prev quote : Option Char}, PointsAt text pos rest →
      Before text pos prev → (∀ q, quote = some q → NqlParser.isQuote q = true) →
      rest.length < left →
      Scans rest pos (NqlParser.scanFilter keywords stopOnPipe prev quote depth rest)
        (scanFilter text keywords stopOnPipe left (quote = some '\'') (quote = some '"') depth
          pos) := by
  induction left with
  | zero => exact fun _ _ _ enough => absurd enough (Nat.not_lt_zero _)
  | succ left ih =>
      intro pos depth rest prev quote points before quotes enough
      cases rest with
      | nil =>
          rw [scanFilter, points.read_nil, ok_bind, if_pos rfl, NqlParser.scanFilter]
          exact scans_stop [] pos
      | cons c rest =>
          have shorter : rest.length < left := Nat.lt_of_succ_lt_succ enough
          have next := before_next points
          cases quote with
          | some quote =>
              have isQuote := quotes quote rfl
              rw [scanFilter_inQuote terminated isQuote points]
              by_cases escape : c = '\\' ∧ rest ≠ []
              · obtain ⟨rfl, more⟩ := escape
                obtain ⟨d, tail, rfl⟩ := List.exists_cons_of_ne_nil more
                rw [if_pos ⟨rfl, more⟩, NqlParser.scanFilter_escape]
                exact (ih points.next.next (before_next points.next) quotes
                  (Nat.lt_of_succ_lt shorter)).keep.keep
              · rw [if_neg escape]
                have stays : ∀ q, (if c = quote then none else some quote) = some q →
                    NqlParser.isQuote q = true := by
                  intro q same
                  by_cases closes : c = quote
                  · rw [if_pos closes] at same
                    exact absurd same (Option.some_ne_none q).symm
                  · rw [if_neg closes] at same
                    exact quotes q same
                rw [NqlParser.scanFilter]
                · exact (ih points.next next stays shorter).keep
                · intro d tail isEscape same
                  exact escape ⟨isEscape, same ▸ List.cons_ne_nil d tail⟩
          | none =>
              change Scans _ _ _
                (scanFilter text keywords stopOnPipe (left + 1) false false depth pos)
              have outside : ∀ depth, Scans rest (pos + 1)
                  (NqlParser.scanFilter keywords stopOnPipe (some c) none depth rest)
                  (scanFilter text keywords stopOnPipe left false false depth (pos + 1)) :=
                fun depth => ih points.next next quotes shorter
              by_cases opens : NqlParser.isQuote c = true
              · rw [scanFilter_quote terminated points opens,
                  NqlParser.scanFilter_openString keywords stopOnPipe prev depth rest opens]
                exact (ih points.next next (by simpa using opens) shorter).keep
              by_cases group : c = '('
              · subst group
                rw [scanFilter_open points, NqlParser.scanFilter_openParen]
                exact (outside (depth + 1)).keep
              by_cases closes : c = ')'
              · subst closes
                rw [scanFilter_close points, NqlParser.scanFilter_closeParen]
                exact (outside (depth - 1)).keep
              have ordinary : NqlParser.isOrdinary c = true := by
                simp [NqlParser.isOrdinary, opens, group, closes]
              rw [scanFilter_plain terminated words stopOnPipe depth left before points ordinary,
                NqlParser.scanFilter_ordinary keywords stopOnPipe prev depth rest ordinary]
              by_cases pipe : stopOnPipe = true ∧ c = '|' ∧ depth = 0
              · rw [if_pos pipe, if_pos pipe]
                exact scans_stop (c :: rest) pos
              rw [if_neg pipe, if_neg pipe]
              by_cases word : depth = 0 ∧
                  keywords.any (NqlParser.keywordAtPosition prev (c :: rest)) = true
              · rw [if_pos word, if_pos word]
                exact scans_stop (c :: rest) pos
              · rw [if_neg word, if_neg word]
                exact (outside depth).keep

omit terminated in
theorem trimEnd_points {scanned tail : List Char} (points : PointsAt text start (scanned ++ tail))
    (enough : scanned.length < turns) :
    trimEnd text start turns (start + scanned.length) =
      .ok (start + (scanned.rdropWhile isspace).length) := by
  induction scanned using List.reverseRecOn generalizing tail turns with
  | nil =>
      obtain ⟨turns, rfl⟩ := Nat.exists_eq_add_one_of_ne_zero (Nat.ne_zero_of_lt enough)
      have atStart : ¬start < start + ([] : List Char).length := Nat.lt_irrefl start
      rw [trimEnd, if_neg atStart]
      rfl
  | append_singleton scanned c ih =>
      obtain ⟨turns, rfl⟩ := Nat.exists_eq_add_one_of_ne_zero (Nat.ne_zero_of_lt enough)
      rw [List.append_assoc] at points
      have last := @PointsAt.advance _ _ _ points scanned.length (by simp)
      rw [List.drop_left] at last
      rw [List.length_append, List.length_singleton] at enough ⊢
      rw [trimEnd, if_pos (by omega), readBack, if_neg (by omega), ← Nat.add_assoc,
        Nat.add_sub_cancel, last.read_cons, ok_bind]
      by_cases blank : isspace c = true
      · rw [if_pos blank, List.rdropWhile_concat_pos _ _ _ blank]
        exact ih points (by omega)
      · rw [if_neg blank, List.rdropWhile_concat_neg _ _ _ blank, List.length_append]
        rfl

theorem parseFilterExpr_parses [Pcre2] {keywords : List (List Char)}
    (words : ∀ keyword ∈ keywords, isComparable keyword = true) (stopOnPipe : Bool)
    (points : PointsAt text pos rest) (enough : text.length < turns) :
    Parses text pos (NqlParser.parseFilterExpr text keywords stopOnPipe rest)
      (parseFilterExpr text turns keywords stopOnPipe ⟨pos, none⟩) := by
  obtain ⟨start, skipped, behind, after⟩ := skipWhitespace_points terminated points enough
  have bound := behind.suffix.length_le.trans_lt enough
  obtain ⟨scan, divides⟩ := @scanFilter_scans _ terminated keywords words stopOnPipe turns start 0
    _ _ none behind (before_charBefore behind) (fun q same => absurd same.symm
      (Option.some_ne_none q)) bound
  have outside : scanFilter text keywords stopOnPipe turns (decide (none = some '\''))
      (decide (none = some '"')) 0 start =
        scanFilter text keywords stopOnPipe turns false false 0 start := rfl
  rw [outside] at scan
  rw [parseFilterExpr, skipped, ok_bind, NqlParser.parseFilterExpr]
  dsimp only
  rw [scan, ok_bind]
  generalize NqlParser.scanFilter keywords stopOnPipe
    (NqlParser.charBefore text (skipSpace rest)) none 0 (skipSpace rest) = scanned at *
  obtain ⟨scanned, current⟩ := scanned
  dsimp only at divides ⊢
  have shorter : scanned.length ≤ (skipSpace rest).length := by
    rw [← divides, List.length_append]
    exact Nat.le_add_right _ _
  have trimmed := List.rdropWhile_prefix isspace scanned
  rw [trimEnd_points (divides ▸ behind) (shorter.trans_lt bound), ok_bind]
  by_cases blank : scanned.rdropWhile isspace = []
  · have atStart : start + (scanned.rdropWhile isspace).length = start := by
      rw [blank]
      rfl
    rw [if_pos blank, if_pos atStart]
    exact parses_fail (ofList_length_le (by simp))
  · have moved : start + (scanned.rdropWhile isspace).length ≠ start := by
      have visible := List.length_pos_of_ne_nil blank
      omega
    have part : scanned.rdropWhile isspace <+: skipSpace rest :=
      trimmed.trans ⟨current, divides⟩
    have copied := behind.copy _ part.length_le
    rw [← List.prefix_iff_eq_take.mp part] at copied
    have clean : nul ∉ scanned.rdropWhile isspace :=
      fun member => terminated (behind.suffix.subset (part.subset member))
    have fits : (scanned.rdropWhile isspace).length < turns := part.length_le.trans_lt bound
    rw [if_neg blank, if_neg moved, Nat.add_sub_cancel_left, copied, ok_bind,
      FilterReads.nblexFilterNew_runs clean fits, ok_bind]
    cases nblexFilterNew (scanned.rdropWhile isspace) with
    | none => exact parses_fail (ofList_length_le (by simp))
    | some filter =>
        have stop := behind.advance shorter
        rw [← divides, List.drop_left] at stop
        exact ⟨start + scanned.length, rfl, stop, after.trans (Nat.le_add_right _ _)⟩

end NqlReads

end Nblex
