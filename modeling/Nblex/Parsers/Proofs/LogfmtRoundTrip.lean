import Nblex.Parsers.Proofs.LogfmtTermination

/-!
# The logfmt round trip

A line of pairs `key=value`, joined by single spaces, is read back as the object of the pairs:
quoted values may hold blanks, `=` and text that looks like further pairs, and what stood in quotes
comes back as a string unless it looks like a number or a boolean.
-/

namespace Nblex

namespace Logfmt

/-- A value as it is written: an integer, a boolean or a text in quotes. -/
inductive Written where
  | integer (negative : Bool) (digits : List Char)
  | bool (b : Bool)
  | text (body : List Char)

namespace Written

/-- The value without its quotes. -/
def bare : Written → List Char
  | .integer negative digits => signText negative ++ digits
  | .bool true => ['t', 'r', 'u', 'e']
  | .bool false => ['f', 'a', 'l', 's', 'e']
  | .text body => body

/-- The value in the line. -/
def source : Written → List Char
  | .text body => '"' :: (body ++ ['"'])
  | written => written.bare

/-- The JSON value that is meant. -/
def json : Written → Json
  | .integer negative digits => .integer (signed negative (decimalValue digits : Int))
  | .bool b => .bool b
  | .text body => .string (String.ofList body)

/-- Integers have 64 bits; texts are ASCII without quotes and backslashes, and do not look like a
    number or a boolean. -/
def Valid : Written → Prop
  | .integer negative digits => Digits digits ∧
      -2 ^ 63 ≤ signed negative (decimalValue digits : Int) ∧
      signed negative (decimalValue digits : Int) < 2 ^ 63
  | .bool _ => True
  | .text body => (∀ c ∈ body, c.toNat < 128 ∧ c ≠ '"' ∧ c ≠ '\\') ∧
      (∀ c ∈ body.head?, isdigit c = false ∧ c ≠ '-') ∧
      body ≠ ['t', 'r', 'u', 'e'] ∧ body ≠ ['f', 'a', 'l', 's', 'e']

end Written

/-- A pair as it is written. -/
structure Pair where
  key : List Char
  value : Written

namespace Pair

/-- Keys are non-empty words of ASCII without `=`. -/
structure Valid (pair : Pair) : Prop where
  notEmpty : pair.key ≠ []
  chars : ∀ c ∈ pair.key, c.toNat < 128 ∧ isspace c = false ∧ c ≠ '='
  value : pair.value.Valid

/-- `key=value`. -/
def text (pair : Pair) : List Char := pair.key ++ '=' :: pair.value.source

/-- The entry of a pair. -/
def entry (pair : Pair) : String × Json := (String.ofList pair.key, pair.value.json)

end Pair

/-- The pairs, each behind a space. -/
def laterText (pairs : List Pair) : List Char := pairs.flatMap fun pair => ' ' :: pair.text

/-- The pairs joined by single spaces. -/
def lineText : List Pair → List Char
  | [] => []
  | pair :: pairs => pair.text ++ laterText pairs

/-- The value given last for a key. -/
def lastValue (pairs : List Pair) (key : List Char) : Option Json :=
  (pairs.reverse.find? fun pair => decide (pair.key = key)).map fun pair => pair.value.json

/-! ## One pair -/

theorem laterText_blankOrEnd (pairs : List Pair) : BlankOrEnd (laterText pairs) := by
  cases pairs with
  | nil => trivial
  | cons pair pairs => exact rfl

/-- A number does not start with a quote and holds no blank. -/
theorem number_word (negative : Bool) {digits : List Char} (number : Digits digits)
    (rest : List Char) :
    (signText negative ++ digits ++ rest).head? ≠ some '"' ∧
      ∀ c ∈ signText negative ++ digits, isspace c = false := by
  constructor
  · cases negative with
    | true => simp [signText]
    | false =>
        cases digits with
        | nil => exact absurd rfl number.1
        | cons c digits =>
              simpa [signText] using (digit_plain (number.2 c List.mem_cons_self)).2.2.2.1
  · intro c member
    rcases List.mem_append.mp member with sign | digit
    · have isMinus : c = '-' := by
        cases negative with
        | true => simpa [signText] using sign
        | false => simp [signText] at sign
      rw [isMinus]
      rfl
    · exact (digit_plain (number.2 c digit)).1

/-- The value stands at the start of its text. -/
theorem source_valueText {written : Written} (valid : written.Valid) {rest : List Char}
    (blank : BlankOrEnd rest) : ValueText (written.source ++ rest) written.bare rest := by
  cases written with
  | integer negative digits =>
      obtain ⟨start, word⟩ := number_word negative valid.1 rest
      exact .plain start word blank
  | bool b =>
      cases b with
      | true =>
          exact .plain (by simp [Written.source, Written.bare])
            (by simp [Written.source, Written.bare, isspace]) blank
      | false =>
          exact .plain (by simp [Written.source, Written.bare])
            (by simp [Written.source, Written.bare, isspace]) blank
  | text body =>
      have shape := @ValueText.quoted body rest
        (quoted_plain fun c member => (valid.1 c member).2)
      simpa [Written.source, Written.bare] using shape

/-- The pair stands at the start of its text, behind the space if there is one. -/
theorem text_pairText {pair : Pair} (valid : pair.Valid) {blanks : List Char}
    (blank : ∀ c ∈ blanks, isspace c = true) {rest : List Char} (ends : BlankOrEnd rest) :
    PairText (blanks ++ (pair.text ++ rest)) pair.key pair.value.bare rest := by
  have shape := PairText.pair blank valid.notEmpty
    (fun c member => by
      obtain ⟨-, visible, noEquals⟩ := valid.chars c member
      simp [isKeyChar, visible, noEquals])
    (source_valueText valid.value ends)
  simpa [Pair.text] using shape

theorem startsNumber_cons (c : Char) (rest : List Char) :
    startsNumber (c :: rest) = (decide (c = '-') || isdigit c) := by
  have range : (decide ('0' ≤ c) && decide (c ≤ '9')) = isdigit c := rfl
  rw [startsNumber, range]

theorem startsNumber_number (negative : Bool) {digits : List Char} (number : Digits digits) :
    startsNumber (signText negative ++ digits) = true := by
  cases negative with
  | true => rfl
  | false =>
      cases digits with
      | nil => exact absurd rfl number.1
      | cons c digits =>
          rw [signText, if_neg Bool.false_ne_true, List.nil_append, startsNumber_cons,
            number.2 c List.mem_cons_self, Bool.or_true]

section Types

variable [Jansson]

/-- A text that does not look like a number or a boolean. -/
theorem jsonValue_text (ascii : Jansson.TakesAscii) {body : List Char}
    (chars : ∀ c ∈ body, c.toNat < 128) (start : ∀ c ∈ body.head?, isdigit c = false ∧ c ≠ '-')
    (notTrue : body ≠ ['t', 'r', 'u', 'e']) (notFalse : body ≠ ['f', 'a', 'l', 's', 'e']) :
    jsonValue body = some (.string (String.ofList body)) := by
  have noNumber : startsNumber body = false := by
    cases body with
    | nil => rfl
    | cons c body =>
        obtain ⟨noDigit, noMinus⟩ := start c rfl
        rw [startsNumber_cons, noDigit, decide_eq_false noMinus]
        rfl
  rw [jsonValue, numberValue, if_neg (by simp [noNumber])]
  dsimp only
  rw [if_neg notTrue, if_neg notFalse, jsonString_ascii ascii chars]

/-- The parser gives the value the type that is meant. -/
theorem jsonValue_bare (ascii : Jansson.TakesAscii) {written : Written}
    (valid : written.Valid) : jsonValue written.bare = some written.json := by
  cases written with
  | integer negative digits =>
      obtain ⟨number, atLeast, below⟩ := valid
      have read := @strtol_number negative digits number [] nofun
      rw [List.append_nil] at read
      have inside : clampLong (signed negative (decimalValue digits : Int)) =
          signed negative (decimalValue digits : Int) := by
        unfold clampLong
        omega
      rw [jsonValue, Written.bare, numberValue, if_pos (startsNumber_number negative number), read,
        inside]
      rfl
  | bool b =>
      cases b with
      | true => rfl
      | false => rfl
  | text body =>
      obtain ⟨chars, start, notTrue, notFalse⟩ := valid
      exact jsonValue_text ascii (fun c member => (chars c member).1) start notTrue notFalse

/-- The loop over the pairs to come sets their values. The induction is on the pairs; what was set
    before is `fields`. -/
theorem runLoop_later (ascii : Jansson.TakesAscii) {pairs : List Pair}
    (valid : ∀ pair ∈ pairs, pair.Valid) :
    ∀ (fields : List (String × Json)) (foundPairs fuel : Nat), pairs.length < fuel →
      0 < foundPairs →
      runLoop lineTurn fuel ⟨laterText pairs, .object fields, foundPairs⟩ =
        some (some (.object (Json.setAll (pairs.map Pair.entry) fields))) := by
  induction pairs with
  | nil =>
      intro fields foundPairs fuel enough found
      obtain ⟨fuel, rfl⟩ := Nat.exists_eq_add_of_lt enough
      rw [List.length_nil, Nat.zero_add]
      apply runLoop_leave
      simp only [lineTurn, laterText, List.flatMap_nil, if_true, if_neg (Nat.ne_of_gt found)]
      rfl
  | cons pair pairs ih =>
      intro fields foundPairs fuel enough found
      obtain ⟨fuel, rfl⟩ : ∃ n, fuel = n + 1 := ⟨fuel - 1, by omega⟩
      have here := valid pair List.mem_cons_self
      have turn := lineTurn_set
        (@text_pairText pair here [' '] (by simp [isspace]) _ (laterText_blankOrEnd pairs))
        (jsonValue_bare ascii here.value) (ascii pair.key fun c member => (here.chars c member).1)
        (.object fields) foundPairs
      rw [List.singleton_append, ← List.cons_append] at turn
      rw [laterText, List.flatMap_cons, ← laterText, runLoop_again turn]
      exact ih (fun other member => valid other (List.mem_cons_of_mem pair member)) _ _ fuel
        (by rw [List.length_cons] at enough; omega) (Nat.succ_pos foundPairs)

end Types

/-- What is set under texts is found under them, the last value of each. -/
theorem get?_setAll_ofList {ι : Type} (name : ι → List Char) (json : ι → Json) (pairs : List ι)
    (key : List Char) :
    (Json.object (Json.setAll (pairs.map fun pair =>
      (String.ofList (name pair), json pair)) [])).get?
        (String.ofList key) =
      (pairs.reverse.find? fun pair => decide (name pair = key)).map json := by
  rw [Json.get?_setAll, ← List.map_reverse]
  generalize pairs.reverse = pairs
  have nothing : (Json.object []).get? (String.ofList key) = none := rfl
  rw [nothing, Option.or_none, Json.get?, List.find?_map, Option.map_map]
  have same : ((fun entry : String × Json => entry.1 == String.ofList key) ∘
      fun pair => (String.ofList (name pair), json pair)) =
        fun pair => decide (name pair = key) := by
    funext pair
    exact decide_eq_decide.mpr String.ofList_inj
  rw [same]
  rfl

theorem get?_entries (pairs : List Pair) (key : List Char) :
    (Json.object (Json.setAll (pairs.map Pair.entry) [])).get? (String.ofList key) =
      lastValue pairs key :=
  get?_setAll_ofList Pair.key (fun pair => pair.value.json) pairs key

end Logfmt

open Logfmt in
/-- The line of any pairs is read back: each key has the value given last for it, and there is no
    other key. -/
theorem nblexParseLogfmtLine_pairs [Jansson] (ascii : Jansson.TakesAscii) {pairs : List Pair}
    (nonempty : pairs ≠ []) (valid : ∀ pair ∈ pairs, pair.Valid) :
    ∃ entries, (∀ fuel, pairs.length < fuel →
        nblexParseLogfmtLine fuel (lineText pairs) = some (some (.object entries))) ∧
      (entries.map Prod.fst).Nodup ∧
      ∀ key, (Json.object entries).get? (String.ofList key) = lastValue pairs key := by
  cases pairs with
  | nil => exact absurd rfl nonempty
  | cons pair pairs =>
      have here := valid pair List.mem_cons_self
      refine ⟨Json.setAll ((pair :: pairs).map Pair.entry) [], fun fuel enough => ?_,
        Json.nodup_keys_setAll _ List.nodup_nil, get?_entries (pair :: pairs)⟩
      obtain ⟨fuel, rfl⟩ : ∃ n, fuel = n + 1 := ⟨fuel - 1, by omega⟩
      have turn := lineTurn_set
        (@text_pairText pair here [] nofun _ (laterText_blankOrEnd pairs))
        (jsonValue_bare ascii here.value) (ascii pair.key fun c member => (here.chars c member).1)
        (.object []) 0
      have notEmpty : lineText (pair :: pairs) ≠ [] := by
        simp [lineText, Pair.text]
      rw [nblexParseLogfmtLine, if_neg notEmpty, lineText]
      rw [List.nil_append] at turn
      rw [runLoop_again turn]
      exact runLoop_later ascii (fun other member => valid other (List.mem_cons_of_mem pair member))
        _ _ fuel (by rw [List.length_cons] at enough; omega) Nat.one_pos

namespace Logfmt

/-- `a=-7 b="x=1 y" a=true`. -/
def samplePairs : List Pair :=
  [⟨['a'], .integer true ['7']⟩, ⟨['b'], .text "x=1 y".toList⟩, ⟨['a'], .bool true⟩]

theorem samplePairs_valid : ∀ pair ∈ samplePairs, pair.Valid := by
  intro pair member
  simp only [samplePairs, List.mem_cons, List.not_mem_nil, or_false] at member
  rcases member with rfl | rfl | rfl
  · refine ⟨by simp, by simp [isspace], ⟨by simp, by simp [isdigit]⟩, ?_, ?_⟩
    · decide
    · decide
  · exact ⟨by simp, by simp [isspace], by simp, by simp [isdigit], by simp, by simp⟩
  · exact ⟨by simp, by simp [isspace], trivial⟩

theorem nblexParseLogfmtLine_samplePairs :
    ∃ entries, (∀ fuel, 3 < fuel → @nblexParseLogfmtLine acceptingJansson fuel
        "a=-7 b=\"x=1 y\" a=true".toList = some (some (.object entries))) ∧
      (entries.map Prod.fst).Nodup ∧ ∀ key,
        (Json.object entries).get? (String.ofList key) = lastValue samplePairs key :=
  @nblexParseLogfmtLine_pairs acceptingJansson acceptingJansson_takesAscii samplePairs (by decide)
    samplePairs_valid

end Logfmt

end Nblex
