import Mathlib

/-!
# The text exposition format

A sample line is a name, one group of comma-separated pairs `label="value"` in braces, a blank and
a number. In a value the backslash, the double quote and the newline are escaped. The reader gives
back what the writer is given, and it accepts a value only up to its closing quote, so that the
last closing brace of a line that is read closes the group.
-/

namespace Nblex.Exposition

/-- A line that has been read: the name, the pairs of the group, and the text of the number. -/
structure Sample where
  name : List Char
  pairs : List (List Char × List Char)
  number : List Char
  deriving DecidableEq

/-! ## Writing -/

/-- A character of a value. -/
def escape : Char → List Char
  | '\\' => ['\\', '\\']
  | '"' => ['\\', '"']
  | '\n' => ['\\', 'n']
  | c => [c]

/-- One pair. -/
def pairText (pair : List Char × List Char) : List Char :=
  pair.1 ++ '=' :: '"' :: (pair.2.flatMap escape ++ ['"'])

/-- The pairs of a group, up to the brace that closes it. -/
def pairsText : List (List Char × List Char) → List Char
  | [] => []
  | [pair] => pairText pair
  | pair :: pairs => pairText pair ++ ',' :: pairsText pairs

/-- A sample line. -/
def Sample.text (sample : Sample) : List Char :=
  sample.name ++ '{' :: (pairsText sample.pairs ++ '}' :: ' ' :: sample.number)

/-! ## Reading -/

/-- What stands behind a backslash. -/
def unescape : Char → Option Char
  | '\\' => some '\\'
  | '"' => some '"'
  | 'n' => some '\n'
  | _ => none

/-- A value up to its closing quote, and the rest behind the quote. -/
def scanValue : List Char → Option (List Char × List Char)
  | [] => none
  | '"' :: rest => some ([], rest)
  | '\n' :: _ => none
  | '\\' :: c :: rest =>
      match unescape c, scanValue rest with
      | some d, some (value, rest) => some (d :: value, rest)
      | _, _ => none
  | c :: rest => (scanValue rest).map (fun scanned => (c :: scanned.1, scanned.2))

/-- A character of a name. -/
def isNameChar (c : Char) : Bool :=
  !(c = '=' || c = '"' || c = ',' || c = '{' || c = '}' || c = '\\' || c = ' ' || c = '\n')

/-- A character of a number. -/
def isNumberChar (c : Char) : Bool :=
  c.isDigit || c = '.' || c = '-' || c = '+' || c = 'e'

/-- A pair and the rest behind it. -/
def readPair (text : List Char) : Option ((List Char × List Char) × List Char) :=
  match text.dropWhile isNameChar with
  | '=' :: '"' :: rest =>
      if text.takeWhile isNameChar = [] then none
      else (scanValue rest).map
        (fun scanned => ((text.takeWhile isNameChar, scanned.1), scanned.2))
  | _ => none

/-- The pairs of a group up to the brace that closes it, and the rest behind the brace. -/
def readPairs : Nat → List Char → Option (List (List Char × List Char) × List Char)
  | 0, _ => none
  | fuel + 1, text =>
      match readPair text with
      | some (pair, '}' :: rest) => some ([pair], rest)
      | some (pair, ',' :: rest) =>
          (readPairs fuel rest).map (fun others => (pair :: others.1, others.2))
      | _ => none

attribute [grind =] readPairs

/-- A sample line. -/
def readSample (line : List Char) : Option Sample :=
  match line.dropWhile isNameChar with
  | '{' :: rest =>
      match readPairs rest.length rest with
      | some (pairs, ' ' :: number) =>
          if number ≠ [] ∧ ∀ c ∈ number, isNumberChar c = true then
            some ⟨line.takeWhile isNameChar, pairs, number⟩
          else none
      | _ => none
  | _ => none

/-! ## Values -/

/-- A character that stands for itself in a value. -/
def IsPlain (c : Char) : Prop := c ≠ '\\' ∧ c ≠ '"' ∧ c ≠ '\n'

theorem escape_plain {c : Char} (plain : IsPlain c) : escape c = [c] := by
  obtain ⟨noBackslash, noQuote, noNewline⟩ := plain
  unfold escape
  split
  · exact absurd rfl noBackslash
  · exact absurd rfl noQuote
  · exact absurd rfl noNewline
  · rfl

theorem flatMap_escape_plain {value : List Char} (plain : ∀ c ∈ value, IsPlain c) :
    value.flatMap escape = value := by
  induction value with
  | nil => rfl
  | cons c value ih =>
      rw [List.flatMap_cons, escape_plain (plain c List.mem_cons_self),
        ih (fun d member => plain d (List.mem_cons_of_mem _ member))]
      rfl

theorem scanValue_plain {c : Char} (plain : IsPlain c) (rest : List Char) :
    scanValue (c :: rest) = (scanValue rest).map (fun scanned => (c :: scanned.1, scanned.2)) := by
  obtain ⟨noBackslash, noQuote, noNewline⟩ := plain
  rw [scanValue]
  · exact noQuote
  · exact noNewline
  · intro d tail isBackslash
    exact absurd isBackslash noBackslash

theorem scanValue_escape (c : Char) (rest : List Char) :
    scanValue (escape c ++ rest) =
      (scanValue rest).map (fun scanned => (c :: scanned.1, scanned.2)) := by
  by_cases plain : IsPlain c
  · rw [escape_plain plain]
    exact scanValue_plain plain rest
  · have special : c = '\\' ∨ c = '"' ∨ c = '\n' := by
      unfold IsPlain at plain
      tauto
    have escaped : ∀ d, unescape d = some c → scanValue ('\\' :: d :: rest) =
        (scanValue rest).map (fun scanned => (c :: scanned.1, scanned.2)) := by
      intro d known
      simp only [scanValue, known]
      cases scanValue rest <;> rfl
    rcases special with rfl | rfl | rfl
    · exact escaped '\\' rfl
    · exact escaped '"' rfl
    · exact escaped 'n' rfl

/-- The reader gives back the value that has been escaped. -/
theorem scanValue_text (value rest : List Char) :
    scanValue (value.flatMap escape ++ '"' :: rest) = some (value, rest) := by
  induction value with
  | nil => rfl
  | cons c value ih =>
      rw [List.flatMap_cons, List.append_assoc, scanValue_escape, ih]
      rfl

/-- What the reader consumes for a value ends with a quote. It is longer than the value, or every
    character of the value stands for itself. -/
theorem scanValue_consumed {text value rest : List Char}
    (scanned : scanValue text = some (value, rest)) :
    ∃ consumed, text = consumed ++ '"' :: rest ∧
      (value.length < consumed.length ∨ consumed = value ∧ ∀ c ∈ value, IsPlain c) := by
  fun_induction scanValue text generalizing value with
  | case1 => cases scanned
  | case2 tail =>
      obtain ⟨rfl, rfl⟩ := Prod.mk.inj (Option.some.inj scanned)
      exact ⟨[], rfl, Or.inr ⟨rfl, nofun⟩⟩
  | case3 => cases scanned
  | case4 c tail d inner innerRest read code ih =>
      obtain ⟨rfl, rfl⟩ := Prod.mk.inj (Option.some.inj scanned)
      obtain ⟨consumed, rfl, longer⟩ := ih read
      refine ⟨'\\' :: c :: consumed, rfl, Or.inl ?_⟩
      rcases longer with longer | ⟨rfl, -⟩
      · simp only [List.length_cons]
        omega
      · simp only [List.length_cons]
        omega
  | case5 => cases scanned
  | case6 c tail noQuote noNewline noEscape ih =>
      obtain ⟨⟨inner, innerRest⟩, read, same⟩ := Option.map_eq_some_iff.mp scanned
      obtain ⟨rfl, rfl⟩ := Prod.mk.inj same
      obtain ⟨consumed, rfl, longer⟩ := ih read
      have plain : IsPlain c := by
        refine ⟨?_, noQuote, noNewline⟩
        intro isBackslash
        cases consumed with
        | nil => exact noEscape '"' innerRest isBackslash rfl
        | cons d consumed => exact noEscape d _ isBackslash rfl
      refine ⟨c :: consumed, rfl, ?_⟩
      rcases longer with longer | ⟨rfl, plains⟩
      · exact Or.inl (Nat.succ_lt_succ longer)
      · exact Or.inr ⟨rfl, List.forall_mem_cons.mpr ⟨plain, plains⟩⟩

/-! ## Groups -/

/-- A name the reader takes for one. -/
def IsName (name : List Char) : Prop := name ≠ [] ∧ ∀ c ∈ name, isNameChar c = true

theorem name_split {name : List Char} (chars : ∀ c ∈ name, isNameChar c = true) {c : Char}
    (stop : isNameChar c = false) (rest : List Char) :
    (name ++ c :: rest).takeWhile isNameChar = name ∧
      (name ++ c :: rest).dropWhile isNameChar = c :: rest := by
  rw [List.takeWhile_append_of_pos chars, List.dropWhile_append_of_pos chars]
  simp [stop]

theorem readPair_text {pair : List Char × List Char} (isName : IsName pair.1)
    (rest : List Char) : readPair (pairText pair ++ rest) = some (pair, rest) := by
  obtain ⟨nonempty, chars⟩ := isName
  have text : pairText pair ++ rest =
      pair.1 ++ '=' :: '"' :: (pair.2.flatMap escape ++ '"' :: rest) := by
    simp [pairText]
  obtain ⟨taken, dropped⟩ := name_split chars (c := '=') rfl
    ('"' :: (pair.2.flatMap escape ++ '"' :: rest))
  rw [text, readPair, taken, dropped]
  simp only [if_neg nonempty, scanValue_text]
  rfl

/-- The reader gives back the pairs that have been written. -/
theorem readPairs_text {pairs : List (List Char × List Char)} (some_pair : pairs ≠ [])
    (names : ∀ pair ∈ pairs, IsName pair.1) {fuel : Nat} (enough : pairs.length ≤ fuel)
    (rest : List Char) :
    readPairs fuel (pairsText pairs ++ '}' :: rest) = some (pairs, rest) := by
  induction pairs generalizing fuel with
  | nil => exact absurd rfl some_pair
  | cons pair pairs ih =>
      cases fuel with
      | zero => cases enough
      | succ fuel =>
          have isName := names pair List.mem_cons_self
          cases pairs with
          | nil =>
              rw [pairsText, readPairs, readPair_text isName]
              rfl
          | cons next pairs =>
              have others := ih (List.cons_ne_nil _ _)
                (fun other member => names other (List.mem_cons_of_mem _ member))
                (Nat.le_of_succ_le_succ enough)
              have text : pairsText (pair :: next :: pairs) ++ '}' :: rest =
                  pairText pair ++ ',' :: (pairsText (next :: pairs) ++ '}' :: rest) := by
                simp [pairsText]
              rw [text, readPairs, readPair_text isName]
              exact congrArg (Option.map _) others

theorem pairsText_length_le (pairs : List (List Char × List Char)) :
    pairs.length ≤ (pairsText pairs).length := by
  have one : ∀ pair, 1 ≤ (pairText pair).length := by
    intro pair
    simp [pairText]
    omega
  induction pairs with
  | nil => exact Nat.le_refl 0
  | cons pair pairs ih =>
      cases pairs with
      | nil => exact one pair
      | cons next pairs =>
          have longer := one pair
          simp only [pairsText, List.length_append, List.length_cons] at ih ⊢
          omega

/-- The reader gives back the line that has been written. -/
theorem readSample_text {sample : Sample} (name : ∀ c ∈ sample.name, isNameChar c = true)
    (some_pair : sample.pairs ≠ []) (names : ∀ pair ∈ sample.pairs, IsName pair.1)
    (some_digit : sample.number ≠ []) (number : ∀ c ∈ sample.number, isNumberChar c = true) :
    readSample sample.text = some sample := by
  have enough : sample.pairs.length ≤
      (pairsText sample.pairs ++ '}' :: ' ' :: sample.number).length := by
    rw [List.length_append]
    exact Nat.le_add_right_of_le (pairsText_length_le sample.pairs)
  obtain ⟨taken, dropped⟩ := name_split name (c := '{') rfl
    (pairsText sample.pairs ++ '}' :: ' ' :: sample.number)
  have pairs := readPairs_text some_pair names enough (' ' :: sample.number)
  rw [Sample.text, readSample, taken, dropped]
  simp only [pairs, if_pos (And.intro some_digit number)]

/-! ## What is consumed -/

theorem readPair_consumed {text rest : List Char} {pair : List Char × List Char}
    (read : readPair text = some (pair, rest)) :
    ∃ consumed, text = pair.1 ++ '=' :: '"' :: (consumed ++ '"' :: rest) ∧
      (pair.2.length < consumed.length ∨ consumed = pair.2 ∧ ∀ c ∈ pair.2, IsPlain c) := by
  unfold readPair at read
  split at read
  · next tail dropped =>
      split at read
      · cases read
      · obtain ⟨⟨value, last⟩, scanned, same⟩ := Option.map_eq_some_iff.mp read
        obtain ⟨rfl, rfl⟩ := Prod.mk.inj same
        obtain ⟨consumed, rfl, longer⟩ := scanValue_consumed scanned
        refine ⟨consumed, ?_, longer⟩
        rw [← dropped, List.takeWhile_append_dropWhile]
  · cases read

/-- What the reader consumes for the pairs of a group ends with a quote and the closing brace. -/
theorem readPairs_consumed {fuel : Nat} {text rest : List Char}
    {pairs : List (List Char × List Char)} (read : readPairs fuel text = some (pairs, rest)) :
    ∃ consumed, text = consumed ++ '"' :: '}' :: rest := by
  induction fuel generalizing text pairs with
  | zero => cases read
  | succ fuel ih =>
      rw [readPairs] at read
      split at read
      · next pair tail one =>
          obtain ⟨-, rfl⟩ := Prod.mk.inj (Option.some.inj read)
          obtain ⟨consumed, rfl, -⟩ := readPair_consumed one
          exact ⟨pair.1 ++ '=' :: '"' :: consumed, by simp⟩
      · next pair tail one =>
          obtain ⟨others, readOthers, same⟩ := Option.map_eq_some_iff.mp read
          obtain ⟨-, rfl⟩ := Prod.mk.inj same
          obtain ⟨later, rfl⟩ := ih readOthers
          obtain ⟨consumed, rfl, -⟩ := readPair_consumed one
          exact ⟨pair.1 ++ '=' :: '"' :: (consumed ++ '"' :: ',' :: later), by simp⟩
      · cases read

theorem readPairs_ne_nil {fuel : Nat} {text rest : List Char}
    {pairs : List (List Char × List Char)} (read : readPairs fuel text = some (pairs, rest)) :
    pairs ≠ [] := by
  cases fuel with
  | zero => cases read
  | succ fuel =>
      rw [readPairs] at read
      split at read
      · obtain ⟨rfl, -⟩ := Prod.mk.inj (Option.some.inj read)
        exact List.cons_ne_nil _ _
      · obtain ⟨others, -, same⟩ := Option.map_eq_some_iff.mp read
        obtain ⟨rfl, -⟩ := Prod.mk.inj same
        exact List.cons_ne_nil _ _
      · cases read

/-- A group that is read as one pair is that pair and the closing brace. -/
theorem readPairs_single {fuel : Nat} {text rest : List Char} {pair : List Char × List Char}
    (read : readPairs fuel text = some ([pair], rest)) :
    readPair text = some (pair, '}' :: rest) := by
  cases fuel with
  | zero => cases read
  | succ fuel =>
      rw [readPairs] at read
      split at read
      · next one =>
          obtain ⟨same, rfl⟩ := Prod.mk.inj (Option.some.inj read)
          rw [one, List.head_eq_of_cons_eq same]
      · obtain ⟨others, readOthers, same⟩ := Option.map_eq_some_iff.mp read
        obtain ⟨shape, -⟩ := Prod.mk.inj same
        exact absurd (List.cons.inj shape).2 (readPairs_ne_nil readOthers)
      · cases read

/-! ## Lines -/

/-- The last occurrence of an element is where it is. -/
theorem last_inj {α : Type*} {a : α} {before before' after after' : List α} (last : a ∉ after)
    (last' : a ∉ after') (same : before ++ a :: after = before' ++ a :: after') :
    before = before' ∧ after = after' := by
  have inside : ∀ {mid tail tail' : List α}, a ∉ tail → a :: tail = mid ++ a :: tail' →
      mid = [] ∧ tail = tail' := by
    intro mid tail tail' fresh shape
    cases mid with
    | nil => exact ⟨rfl, (List.cons.inj shape).2⟩
    | cons b mid =>
        have tail_eq : tail = mid ++ a :: tail' := (List.cons.inj shape).2
        rw [tail_eq] at fresh
        exact absurd (by simp) fresh
  rcases List.append_eq_append_iff.mp same with ⟨mid, rfl, shape⟩ | ⟨mid, rfl, shape⟩
  · obtain ⟨rfl, rfl⟩ := inside last shape
    exact ⟨(List.append_nil _).symm, rfl⟩
  · obtain ⟨rfl, rfl⟩ := inside last' shape
    exact ⟨List.append_nil _, rfl⟩

theorem brace_notMem_number {number : List Char} (chars : ∀ c ∈ number, isNumberChar c = true) :
    '}' ∉ ' ' :: number := by
  intro member
  rcases List.mem_cons.mp member with blank | inside
  · exact absurd blank (by decide)
  · exact absurd (chars _ inside) (by decide)

/-- In a line that is read the group ends with a quote in front of its last closing brace, and
    what follows is the number. -/
theorem readSample_closed {before number : List Char} {sample : Sample}
    (chars : ∀ c ∈ number, isNumberChar c = true)
    (read : readSample (before ++ '}' :: ' ' :: number) = some sample) :
    sample.number = number ∧ ∃ consumed, before = consumed ++ ['"'] := by
  generalize line_eq : before ++ '}' :: ' ' :: number = line at read
  unfold readSample at read
  split at read
  · next rest dropped =>
      split at read
      · next pairs digits group =>
          split at read
          · next valid =>
              obtain rfl := Option.some.inj read
              obtain ⟨consumed, rfl⟩ := readPairs_consumed group
              have whole : line = (line.takeWhile isNameChar ++ '{' :: (consumed ++ ['"'])) ++
                  '}' :: ' ' :: digits := by
                conv_lhs => rw [← List.takeWhile_append_dropWhile (p := isNameChar) (l := line)]
                rw [dropped]
                simp
              obtain ⟨same, tail⟩ := last_inj (brace_notMem_number chars)
                (brace_notMem_number valid.2) (line_eq.trans whole)
              refine ⟨(List.cons.inj tail).2.symm, line.takeWhile isNameChar ++ '{' :: consumed, ?_⟩
              simpa using same
          · cases read
      · cases read
  · cases read

/-- A value that stands in a line as it is and is read back consists of plain characters. -/
theorem readSample_single {name label value number : List Char}
    (chars : ∀ c ∈ name, isNameChar c = true)
    (read : readSample (name ++ '{' :: (label ++ '=' :: '"' :: (value ++ '"' :: '}' :: ' ' ::
      number))) = some ⟨name, [(label, value)], number⟩) : ∀ c ∈ value, IsPlain c := by
  obtain ⟨-, dropped⟩ := name_split chars (c := '{') rfl
    (label ++ '=' :: '"' :: (value ++ '"' :: '}' :: ' ' :: number))
  unfold readSample at read
  split at read
  · next rest dropped' =>
      obtain rfl := (List.cons.inj (dropped.symm.trans dropped')).2
      split at read
      · next pairs digits group =>
          split at read
          · obtain ⟨-, rfl, rfl⟩ := Sample.mk.inj (Option.some.inj read)
            obtain ⟨consumed, same, longer⟩ := readPair_consumed (readPairs_single group)
            have consumed_eq : value = consumed := by simpa using same
            rcases longer with longer | ⟨-, plain⟩
            · rw [← consumed_eq] at longer
              exact absurd longer (Nat.lt_irrefl _)
            · exact plain
          · cases read
      · cases read
  · cases read

end Nblex.Exposition
