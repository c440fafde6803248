import Nblex.Core.FilterEngine.Proofs.Atoms
import Nblex.Parsers.LogfmtParser
import Mathlib.Data.List.TakeWhile

/-!
# Which lines the logfmt parser finishes

A pair that cannot be read leaves the position where it was, and the text up to the next blank is
skipped instead. At a blank that skips nothing. So the loop comes to an end exactly on the lines
that are made of pairs, of words at the start of the line or behind a closing quote, and of no
blanks that no pair follows.
-/

namespace Nblex

namespace Logfmt

/-- The text starts with a value: the value and what follows it. -/
inductive ValueText : List Char → List Char → List Char → Prop where
  | plain {value rest : List Char} :
      (value ++ rest).head? ≠ some '"' → (∀ c ∈ value, isspace c = false) → BlankOrEnd rest →
      ValueText (value ++ rest) value rest
  | quoted {body rest : List Char} :
      Quoted body → ValueText ('"' :: (body ++ '"' :: rest)) body rest

/-- The text starts with a pair, after any blanks: its key, its value and what follows it. -/
inductive PairText : List Char → List Char → List Char → List Char → Prop where
  | pair {blanks key text value rest : List Char} :
      (∀ c ∈ blanks, isspace c = true) → key ≠ [] → (∀ c ∈ key, isKeyChar c = true) →
      ValueText text value rest → PairText (blanks ++ (key ++ '=' :: text)) key value rest

/-- jansson takes the key and the value of a pair. -/
def accepts [Jansson] (key value : List Char) : Bool :=
  (jsonValue value).isSome && Jansson.utf8CheckString key

/-- The line is read to its end, or to a pair that jansson refuses. A word that is no pair ends
    at a blank, behind which only a pair can stand. -/
inductive Settles [Jansson] : List Char → Prop where
  | done : Settles []
  | refused {text key value rest : List Char} :
      PairText text key value rest → accepts key value = false → Settles text
  | pair {text key value rest : List Char} :
      PairText text key value rest → accepts key value = true → Settles rest → Settles text
  | word {word rest : List Char} :
      word ≠ [] → (∀ c ∈ word, isspace c = false) → BlankOrEnd rest →
      (∀ key value after, ¬ PairText (word ++ rest) key value after) → Settles rest →
      Settles (word ++ rest)

/-! ## Reading a pair -/

/-- A closed string is scanned up to its quote only. -/
theorem scanQuoted_closed (text : List Char) :
    ∀ {body rest : List Char}, scanQuoted text = (body, '"' :: rest) →
      Quoted body ∧ text = body ++ '"' :: rest := by
  induction text using scanQuoted.induct with
  | case1 =>
      intro body rest scanned
      cases scanned
  | case2 tail =>
      intro body rest scanned
      rw [scanQuoted] at scanned
      cases scanned
      exact ⟨.nil, rfl⟩
  | case3 c tail inner outer split ih =>
      intro body rest scanned
      rw [scanQuoted, split] at scanned
      cases scanned
      obtain ⟨quoted, shape⟩ := ih split
      exact ⟨.escaped quoted, by rw [shape]; rfl⟩
  | case4 c tail noQuote noEscape inner outer split ih =>
      intro body rest scanned
      rw [scanQuoted.eq_4 c tail noQuote noEscape, split] at scanned
      obtain ⟨rfl, rfl⟩ := Prod.mk.inj scanned
      obtain ⟨quoted, shape⟩ := ih split
      have plain : c ≠ '\\' := by
        rintro rfl
        cases tail with
        | nil => cases split
        | cons d tail => exact noEscape d tail rfl rfl
      exact ⟨.plain noQuote plain quoted, by rw [shape]; rfl⟩

/-- The rest behind a run of characters that are no blanks. -/
theorem dropWhile_blankOrEnd (pos : List Char) :
    BlankOrEnd (pos.dropWhile fun c => !isspace c) := by
  cases rest : pos.dropWhile fun c => !isspace c with
  | nil => trivial
  | cons c tail =>
      have stops := List.head?_dropWhile_not (fun c => !isspace c) pos
      rw [rest] at stops
      have space : isspace c = true := by simpa using stops
      exact space

theorem visible_of_run {pos : List Char} :
    ∀ c ∈ pos.takeWhile fun c => !isspace c, isspace c = false := by
  intro c member
  simpa using List.mem_takeWhile_imp member

theorem parseValue_iff {text value rest : List Char} :
    parseValue text = some (value, rest) ↔ ValueText text value rest := by
  constructor
  · intro read
    unfold parseValue at read
    split at read
    · next quotedText =>
      split at read
      · next body tail scanned =>
        obtain ⟨quoted, shape⟩ := scanQuoted_closed _ scanned
        obtain ⟨rfl, rfl⟩ := Prod.mk.inj (Option.some.inj read)
        rw [shape]
        exact .quoted quoted
      · cases read
    · next noQuote =>
      obtain ⟨rfl, rfl⟩ := Prod.mk.inj (Option.some.inj read)
      have whole : (text.takeWhile fun c => !isspace c) ++ (text.dropWhile fun c => !isspace c) =
          text := List.takeWhile_append_dropWhile
      have plain := @ValueText.plain (text.takeWhile fun c => !isspace c)
        (text.dropWhile fun c => !isspace c)
      rw [whole] at plain
      refine plain ?_ visible_of_run (dropWhile_blankOrEnd text)
      intro quote
      cases text with
      | nil => cases quote
      | cons c text => exact noQuote text (by rw [Option.some.inj quote])
  · intro shape
    cases shape with
    | plain noQuote visible blank =>
        have all : ∀ c ∈ value, (!isspace c) = true := by
          intro c member
          rw [visible c member]
          rfl
        obtain ⟨taken, dropped⟩ := takeWhile_stop all blank.stops
        unfold parseValue
        split
        · next quotedText same =>
          rw [same] at noQuote
          exact absurd rfl noQuote
        · rw [taken, dropped]
    | quoted quoted =>
        rw [parseValue, scanQuoted_quoted quoted]
        rfl

theorem isKeyChar_visible {c : Char} (keyChar : isKeyChar c = true) : isspace c = false := by
  simp only [isKeyChar, Bool.and_eq_true, Bool.not_eq_true'] at keyChar
  exact keyChar.2

theorem parseKeyValuePair_iff {pos key value rest : List Char} :
    parseKeyValuePair pos = some (key, value, rest) ↔ PairText pos key value rest := by
  constructor
  · intro read
    have whole : pos = pos.takeWhile isspace ++ ((skipSpace pos).takeWhile isKeyChar ++
        (skipSpace pos).dropWhile isKeyChar) := by
      rw [List.takeWhile_append_dropWhile]
      exact List.takeWhile_append_dropWhile.symm
    unfold parseKeyValuePair at read
    split at read
    · next text equals =>
      rw [equals] at whole
      by_cases noKey : (skipSpace pos).takeWhile isKeyChar = []
      · rw [if_pos noKey] at read
        cases read
      · rw [if_neg noKey] at read
        obtain ⟨⟨value', rest'⟩, readValue, same⟩ := Option.map_eq_some_iff.mp read
        obtain ⟨rfl, rfl, rfl⟩ := same
        have shape := @PairText.pair (pos.takeWhile isspace) _ _ _ _
          (fun c member => List.mem_takeWhile_imp member) noKey
          (fun c member => List.mem_takeWhile_imp member) (parseValue_iff.mp readValue)
        rw [← whole] at shape
        exact shape
    · cases read
  · intro shape
    cases shape with
    | @pair blanks key text value rest blank notEmpty keyChars valueText =>
        have start : skipSpace (blanks ++ (key ++ '=' :: text)) = key ++ '=' :: text := by
          rw [skipSpace, List.dropWhile_append_of_pos blank]
          cases key with
          | nil => exact absurd rfl notEmpty
          | cons c key =>
              exact skipSpace_of_head _ (isKeyChar_visible (keyChars c List.mem_cons_self))
        have stop : ∀ c ∈ ('=' :: text).head?, isKeyChar c = false := by
          rintro c ⟨⟩
          decide
        obtain ⟨taken, dropped⟩ := takeWhile_stop keyChars stop
        rw [parseKeyValuePair, start, taken, dropped]
        simp only [if_neg notEmpty, parseValue_iff.mpr valueText, Option.map_some]

theorem noPair_iff {text : List Char} :
    parseKeyValuePair text = none ↔ ∀ key value rest, ¬ PairText text key value rest := by
  constructor
  · intro noPair key value rest shape
    rw [parseKeyValuePair_iff.mpr shape] at noPair
    cases noPair
  · intro noShape
    cases read : parseKeyValuePair text with
    | none => rfl
    | some pair => exact absurd (parseKeyValuePair_iff.mp read) (noShape _ _ _)

/-! ## The loop -/

section Loop

variable [Jansson]

/-- A turn at a pair that jansson takes sets its value. -/
theorem lineTurn_set {text key value rest : List Char} (shape : PairText text key value rest)
    {json : Json} (typed : jsonValue value = some json)
    (accepted : Jansson.utf8CheckString key = true) (root : Json) (foundPairs : Nat) :
    lineTurn ⟨text, root, foundPairs⟩ =
      .again ⟨rest, root.set (String.ofList key) (some json), foundPairs + 1⟩ := by
  have read := parseKeyValuePair_iff.mpr shape
  have notEnd : text ≠ [] := by
    rintro rfl
    cases read
  unfold lineTurn
  simp only [if_neg notEnd, read, typed, accepted, if_true]

/-- A turn at a pair: behind it, or out of the loop if jansson refuses it. -/
theorem lineTurn_pair {text key value rest : List Char} (shape : PairText text key value rest)
    (root : Json) (foundPairs : Nat) :
    (accepts key value = true ∧ ∃ root',
      lineTurn ⟨text, root, foundPairs⟩ = .again ⟨rest, root', foundPairs + 1⟩) ∨
    (accepts key value = false ∧ lineTurn ⟨text, root, foundPairs⟩ = .leave none) := by
  have read := parseKeyValuePair_iff.mpr shape
  have notEnd : text ≠ [] := by
    rintro rfl
    cases read
  cases typed : jsonValue value with
  | none =>
      unfold lineTurn
      simp only [if_neg notEnd, read, accepts, typed]
      exact Or.inr ⟨rfl, trivial⟩
  | some json =>
      cases accepted : Jansson.utf8CheckString key with
      | true =>
          refine Or.inl ⟨?_, _, lineTurn_set shape typed accepted root foundPairs⟩
          rw [accepts, typed, accepted]
          rfl
      | false =>
          unfold lineTurn
          simp only [if_neg notEnd, read, accepts, typed, accepted]
          exact Or.inr ⟨rfl, rfl⟩

/-- A turn where no pair can be read skips to the next blank. -/
theorem lineTurn_skip {text : List Char} (notEnd : text ≠ [])
    (noPair : parseKeyValuePair text = none) (root : Json) (foundPairs : Nat) :
    lineTurn ⟨text, root, foundPairs⟩ =
      .again ⟨text.dropWhile fun c => !isspace c, root, foundPairs⟩ := by
  unfold lineTurn
  simp only [if_neg notEnd, noPair]

/-- The loop ends on a line that settles. -/
theorem Settles.halts {text : List Char} (settles : Settles text) (root : Json)
    (foundPairs : Nat) : Halts lineTurn ⟨text, root, foundPairs⟩ := by
  induction settles generalizing root foundPairs with
  | done => exact halts_of_leave rfl
  | refused shape refused =>
      rcases lineTurn_pair shape root foundPairs with ⟨accepted, -⟩ | ⟨-, leaves⟩
      · rw [refused] at accepted
        cases accepted
      · exact halts_of_leave leaves
  | pair shape accepted settles ih =>
      rcases lineTurn_pair shape root foundPairs with ⟨-, root', again⟩ | ⟨refused, -⟩
      · exact (halts_again_iff again).mpr (ih root' (foundPairs + 1))
      · rw [accepted] at refused
        cases refused
  | @word word rest notEmpty visible blank noPair settles ih =>
      have skip := lineTurn_skip (by simp [notEmpty]) (noPair_iff.mpr noPair) root foundPairs
      have all : ∀ c ∈ word, (!isspace c) = true := by
        intro c member
        rw [visible c member]
        rfl
      rw [(takeWhile_stop all blank.stops).2] at skip
      exact (halts_again_iff skip).mpr (ih root foundPairs)

/-- The text up to the next blank is a word, unless there is none. -/
theorem settles_skip {text : List Char}
    (noPair : ∀ key value rest, ¬ PairText text key value rest)
    (settles : Settles (text.dropWhile fun c => !isspace c)) : Settles text := by
  have whole : (text.takeWhile fun c => !isspace c) ++ (text.dropWhile fun c => !isspace c) =
      text := List.takeWhile_append_dropWhile
  by_cases atBlank : (text.takeWhile fun c => !isspace c) = []
  · rw [atBlank, List.nil_append] at whole
    rw [← whole]
    exact settles
  · have word := @Settles.word _ (text.takeWhile fun c => !isspace c)
      (text.dropWhile fun c => !isspace c) atBlank visible_of_run (dropWhile_blankOrEnd text)
    rw [whole] at word
    exact word noPair settles

/-- A line on which the loop ends settles: turn by turn, back from the last one. -/
theorem settles_of_halts {state : LineState} (halts : Halts lineTurn state) :
    Settles state.pos := by
  refine Halts.induct (motive := fun state => Settles state.pos) ?_ ?_ halts
  · rintro ⟨text, root, foundPairs⟩ result leaves
    by_cases atEnd : text = []
    · rw [atEnd]
      exact .done
    · cases read : parseKeyValuePair text with
      | none =>
          rw [lineTurn_skip atEnd read] at leaves
          cases leaves
      | some pair =>
          have shape : PairText text pair.1 pair.2.1 pair.2.2 := parseKeyValuePair_iff.mp read
          rcases lineTurn_pair shape root foundPairs with ⟨-, root', again⟩ | ⟨refused, -⟩
          · rw [again] at leaves
            cases leaves
          · exact .refused shape refused
  · rintro ⟨text, root, foundPairs⟩ next again settles
    have notEnd : text ≠ [] := by
      rintro rfl
      cases again
    cases read : parseKeyValuePair text with
    | none =>
        rw [lineTurn_skip notEnd read] at again
        obtain rfl := Turn.again.inj again
        exact settles_skip (noPair_iff.mp read) settles
    | some pair =>
        have shape : PairText text pair.1 pair.2.1 pair.2.2 := parseKeyValuePair_iff.mp read
        rcases lineTurn_pair shape root foundPairs with ⟨accepted, root', turn⟩ | ⟨-, leaves⟩
        · rw [turn] at again
          obtain rfl := Turn.again.inj again
          exact .pair shape accepted settles
        · rw [leaves] at again
          cases again

end Loop

end Logfmt

open Logfmt in
/-- The parser returns on exactly the lines that settle. -/
theorem nblexParseLogfmtLine_returns_iff [Jansson] (line : List Char) :
    (∃ fuel result, nblexParseLogfmtLine fuel line = some result) ↔ Settles line := by
  by_cases empty : line = []
  · subst empty
    exact ⟨fun _ => .done, fun _ => ⟨0, none, rfl⟩⟩
  · have loop : (∃ fuel result, nblexParseLogfmtLine fuel line = some result) ↔
        Halts lineTurn ⟨line, .object [], 0⟩ := by
      simp only [nblexParseLogfmtLine, if_neg empty, Halts, Option.isSome_iff_exists]
    rw [loop]
    exact ⟨fun halts => settles_of_halts halts, fun settles => settles.halts _ _⟩

open Logfmt in
/-- A blank behind the last pair is not left again. -/
theorem trailingBlank_hangs :
    ¬ ∃ fuel result, @nblexParseLogfmtLine acceptingJansson fuel ['a', '=', '1', ' '] =
      some result := by
  let _ := acceptingJansson
  have atBlank : ¬ Halts lineTurn ⟨[' '], .object [("a", .integer 1)], 1⟩ := by
    apply @not_halts_of_closed _ _ _ fun state => state.pos = [' ']
    · rintro ⟨pos, root, foundPairs⟩ rfl
      exact ⟨_, rfl, rfl⟩
    · rfl
  have first : lineTurn ⟨['a', '=', '1', ' '], .object [], 0⟩ =
      .again ⟨[' '], .object [("a", .integer 1)], 1⟩ := rfl
  rw [← halts_again_iff first] at atBlank
  rintro ⟨fuel, result, returned⟩
  exact atBlank ⟨fuel, Option.isSome_iff_exists.mpr ⟨result, returned⟩⟩

end Nblex
