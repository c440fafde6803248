import Nblex.Core.FilterEngine.Proofs.EscapedStrings
import Nblex.Parsers.Proofs.LogfmtRoundTrip

/-!
# Escaped values in a logfmt line

The scan over a quoted value passes over escaped characters, but the value is copied with the
backslashes in it. So a string that is escaped in a line of pairs comes back just in case there was
nothing to escape, unless a later pair gives its key another value.
-/

namespace Nblex

namespace Logfmt

/-! ## Lines of pairs -/

/-- The text starts with pairs, one behind the other: their keys and values, and what follows
    them. -/
inductive PairsText : List Char → List (List Char × List Char) → List Char → Prop where
  | nil {rest : List Char} : PairsText rest [] rest
  | cons {text key value middle rest : List Char} {pairs : List (List Char × List Char)} :
      PairText text key value middle → PairsText middle pairs rest →
      PairsText text ((key, value) :: pairs) rest

theorem PairsText.append {text middle rest : List Char}
    {before after : List (List Char × List Char)}
    (front : PairsText text before middle) (back : PairsText middle after rest) :
    PairsText text (before ++ after) rest := by
  induction front with
  | nil => exact back
  | cons shape _ ih => exact .cons shape (ih back)

/-- The text of the value given last for a key. -/
def lastText (pairs : List (List Char × List Char)) (key : List Char) : Option (List Char) :=
  (pairs.reverse.find? fun pair => decide (pair.1 = key)).map Prod.snd

section Line

variable [Jansson]

/-- The entry of a pair that jansson takes. -/
def pairEntry (pair : List Char × List Char) : String × Json :=
  (String.ofList pair.1, (jsonValue pair.2).getD .null)

/-- Pairs that jansson takes set their values. -/
theorem PairsText.reaches {text rest : List Char} {pairs : List (List Char × List Char)}
    (shape : PairsText text pairs rest) (accepted : ∀ pair ∈ pairs, accepts pair.1 pair.2 = true) :
    ∀ (fields : List (String × Json)) (foundPairs : Nat),
      Reaches lineTurn ⟨text, .object fields, foundPairs⟩
        ⟨rest, .object (Json.setAll (pairs.map pairEntry) fields), foundPairs + pairs.length⟩ := by
  induction shape with
  | nil => exact fun fields foundPairs => .refl
  | @cons text key value middle rest pairs here later ih =>
      intro fields foundPairs
      obtain ⟨taken, others⟩ := List.forall_mem_cons.mp accepted
      obtain ⟨typed, keyTaken⟩ := Bool.and_eq_true_iff.mp taken
      obtain ⟨json, typed⟩ := Option.isSome_iff_exists.mp typed
      have turn := lineTurn_set here typed keyTaken (.object fields) foundPairs
      have entry : pairEntry (key, value) = (String.ofList key, json) := by
        rw [pairEntry, typed, Option.getD_some]
      refine .head turn ?_
      rw [List.map_cons, entry, List.length_cons, Nat.add_comm pairs.length 1, ← Nat.add_assoc]
      exact ih others _ _

/-- At a pair that jansson refuses there is no result. -/
theorem PairsText.refused {text rest : List Char} {pairs : List (List Char × List Char)}
    (shape : PairsText text pairs rest)
    (refused : ∃ pair ∈ pairs, accepts pair.1 pair.2 = false) (root : Json) (foundPairs : Nat) :
    ∃ last, Reaches lineTurn ⟨text, root, foundPairs⟩ last ∧ lineTurn last = .leave none := by
  induction shape generalizing root foundPairs with
  | nil =>
      obtain ⟨pair, member, -⟩ := refused
      cases member
  | @cons text key value middle rest pairs here later ih =>
      rcases lineTurn_pair here root foundPairs with ⟨taken, root', again⟩ | ⟨-, leaves⟩
      · obtain ⟨pair, member, notTaken⟩ := refused
        rcases List.mem_cons.mp member with rfl | inside
        · rw [taken] at notTaken
          cases notTaken
        · obtain ⟨last, reaches, leaves⟩ := ih ⟨pair, inside, notTaken⟩ root' (foundPairs + 1)
          exact ⟨last, .head again reaches, leaves⟩
      · exact ⟨_, .refl, leaves⟩

theorem get?_pairEntries (pairs : List (List Char × List Char)) (key : List Char) :
    (Json.object (Json.setAll (pairs.map pairEntry) [])).get? (String.ofList key) =
      (lastText pairs key).map fun value => (jsonValue value).getD .null := by
  rw [lastText, Option.map_map]
  exact get?_setAll_ofList Prod.fst (fun pair => (jsonValue pair.2).getD .null) pairs key

/-- A line of pairs gives a key a value just in case jansson takes all pairs and the last one of the
    key has the value. -/
theorem nblexParseLogfmtLine_get?_iff {line : List Char} {pairs : List (List Char × List Char)}
    (nonempty : pairs ≠ []) (shape : PairsText line pairs []) (key : List Char) (json : Json) :
    (∃ fuel root, nblexParseLogfmtLine fuel line = some (some root) ∧
      root.get? (String.ofList key) = some json) ↔
    (∀ pair ∈ pairs, accepts pair.1 pair.2 = true) ∧
      ∃ value, lastText pairs key = some value ∧ jsonValue value = some json := by
  have notEnd : line ≠ [] := by
    rintro rfl
    cases shape with
    | nil => exact nonempty rfl
    | cons here later =>
        have read := parseKeyValuePair_iff.mpr here
        cases read
  simp only [nblexParseLogfmtLine, if_neg notEnd]
  by_cases accepted : ∀ pair ∈ pairs, accepts pair.1 pair.2 = true
  · have reaches := shape.reaches accepted [] 0
    have positive : 0 + pairs.length ≠ 0 := by
      rw [Nat.zero_add]
      exact fun none => nonempty (List.eq_nil_of_length_eq_zero none)
    have leaves : lineTurn ⟨[], .object (Json.setAll (pairs.map pairEntry) []), 0 + pairs.length⟩ =
        .leave (some (.object (Json.setAll (pairs.map pairEntry) []))) := by
      rw [lineTurn, if_pos rfl]
      dsimp only
      rw [if_neg positive]
    obtain ⟨enough, done⟩ := runLoop_iff_reaches.mpr ⟨_, reaches, leaves⟩
    have typed : ∀ value, lastText pairs key = some value →
        ∃ json, jsonValue value = some json := by
      intro value last
      obtain ⟨pair, found, rfl⟩ := Option.map_eq_some_iff.mp last
      have taken := accepted pair (List.mem_reverse.mp (List.mem_of_find?_eq_some found))
      exact Option.isSome_iff_exists.mp (Bool.and_eq_true_iff.mp taken).1
    have here := get?_pairEntries pairs key
    constructor
    · rintro ⟨fuel, root, returned, found⟩
      obtain rfl := Option.some.inj (runLoop_unique returned done)
      rw [here] at found
      obtain ⟨value, last, same⟩ := Option.map_eq_some_iff.mp found
      obtain ⟨json', typed⟩ := typed value last
      rw [typed, Option.getD_some] at same
      exact ⟨accepted, value, last, typed.trans (congrArg some same)⟩
    · rintro ⟨-, value, last, typed⟩
      refine ⟨enough, _, done, ?_⟩
      rw [here, last, Option.map_some, typed, Option.getD_some]
  · have refused : ∃ pair ∈ pairs, accepts pair.1 pair.2 = false := by
      simpa using accepted
    refine iff_of_false ?_ fun both => accepted both.1
    rintro ⟨fuel, root, returned, -⟩
    obtain ⟨enough, done⟩ := runLoop_iff_reaches.mpr (shape.refused refused (.object []) 0)
    cases runLoop_unique returned done

end Line

/-! ## The escaped string -/

section Escaped

variable {s : List Char}

theorem escapeQuotes_ascii (chars : ∀ c ∈ s, c.toNat < 128) :
    ∀ c ∈ escapeQuotes s, c.toNat < 128 := by
  intro c member
  obtain ⟨d, inside, here⟩ := List.mem_flatMap.mp member
  split at here
  · rcases List.mem_cons.mp here with rfl | same
    · decide
    · rw [List.mem_singleton.mp same]
      exact chars d inside
  · rw [List.mem_singleton.mp here]
    exact chars d inside

/-- An escape starts with a backslash. -/
theorem escapeQuotes_head (start : ∀ c ∈ s.head?, isdigit c = false ∧ c ≠ '-') :
    ∀ c ∈ (escapeQuotes s).head?, isdigit c = false ∧ c ≠ '-' := by
  cases s with
  | nil => exact nofun
  | cons c s =>
      rw [escapeQuotes_cons]
      split
      · rintro d ⟨⟩
        decide
      · exact start

/-- An escaped string without a backslash was not changed. -/
theorem escapeQuotes_eq_self {word : List Char} (plain : '\\' ∉ word)
    (same : escapeQuotes s = word) : s = word := by
  rw [← same]
  refine ((escapeQuotes_eq_self_iff s).mpr fun c member => ?_).symm
  by_contra special
  refine plain (same ▸ List.mem_flatMap.mpr ⟨c, member, ?_⟩)
  have escaped : c = '"' ∨ c = '\\' := or_iff_not_imp_left.mpr fun noQuote =>
    by_contra fun noBackslash => special ⟨noQuote, noBackslash⟩
  rw [if_pos escaped]
  exact List.mem_cons_self

end Escaped

/-- A number is no string. -/
theorem numberValue_ne_string (value : List Char) (text : String) :
    numberValue value ≠ some (.string text) := by
  intro numeric
  unfold numberValue at numeric
  split at numeric
  · dsimp only at numeric
    split at numeric
    · cases numeric
    · split at numeric
      · split at numeric
        · unfold jsonReal at numeric
          split at numeric <;> cases numeric
        · cases numeric
      · cases numeric
  · cases numeric

section Pairs

variable [Jansson] (ascii : Jansson.TakesAscii) {s : List Char} (chars : ∀ c ∈ s, c.toNat < 128)
  (start : ∀ c ∈ s.head?, isdigit c = false ∧ c ≠ '-') (notTrue : s ≠ ['t', 'r', 'u', 'e'])
  (notFalse : s ≠ ['f', 'a', 'l', 's', 'e'])

include ascii chars start notTrue notFalse

/-- The escaped string is a string with its backslashes. -/
theorem jsonValue_escapeQuotes :
    jsonValue (escapeQuotes s) = some (.string (String.ofList (escapeQuotes s))) :=
  jsonValue_text ascii (escapeQuotes_ascii chars) (escapeQuotes_head start)
    (fun same => notTrue (escapeQuotes_eq_self (by decide) same))
    (fun same => notFalse (escapeQuotes_eq_self (by decide) same))

/-- Only the text itself gives the string. -/
theorem jsonValue_eq_string_iff (value : List Char) :
    jsonValue value = some (.string (String.ofList s)) ↔ value = s := by
  constructor
  · intro typed
    unfold jsonValue at typed
    split at typed
    · next number numeric => exact absurd (typed ▸ numeric) (numberValue_ne_string value _)
    · split at typed
      · cases Option.some.inj typed
      · split at typed
        · cases Option.some.inj typed
        · unfold jsonString at typed
          split at typed
          · exact String.ofList_inj.mp (Json.string.inj (Option.some.inj typed))
          · cases typed
  · rintro rfl
    exact jsonValue_text ascii chars start notTrue notFalse

end Pairs

/-- The pair of a key and an escaped string in a line, behind other pairs and in front of others. -/
structure InLine (key s line : List Char) (before after : List (List Char × List Char)) : Prop where
  keyNonempty : key ≠ []
  keyChars : ∀ c ∈ key, isKeyChar c = true
  shape : ∃ blanks rest, (∀ c ∈ blanks, isspace c = true) ∧
    PairsText line before (blanks ++ (key ++ '=' :: (quotedText s ++ rest))) ∧
    PairsText rest after []

theorem InLine.pairs {key s line : List Char} {before after : List (List Char × List Char)}
    (inLine : InLine key s line before after) :
    PairsText line (before ++ (key, escapeQuotes s) :: after) [] := by
  obtain ⟨blanks, rest, blank, front, back⟩ := inLine.shape
  have value : ValueText (quotedText s ++ rest) (escapeQuotes s) rest := by
    have shape := @ValueText.quoted (escapeQuotes s) rest (quoted_escapeQuotes s)
    simpa [quotedText] using shape
  exact front.append (.cons (.pair blank inLine.keyNonempty inLine.keyChars value) back)

/-- The line is read, and the key has the string. -/
def DecodesTo [Jansson] (line key s : List Char) : Prop :=
  ∃ fuel root, nblexParseLogfmtLine fuel line = some (some root) ∧
    root.get? (String.ofList key) = some (.string (String.ofList s))

theorem lastText_middle (before after : List (List Char × List Char)) (key value : List Char) :
    lastText (before ++ (key, value) :: after) key =
      some ((lastText after key).getD value) := by
  rw [lastText, lastText, List.reverse_append, List.reverse_cons, List.append_assoc,
    List.find?_append]
  cases after.reverse.find? fun pair => decide (pair.1 = key) with
  | none => simp
  | some pair => simp

/-- An escaped string is decoded just in case jansson takes the key and the other pairs, and either
    no later pair has the key and there was nothing to escape, or the last pair of the key has the
    string as its text. -/
theorem decodesTo_iff [Jansson] (ascii : Jansson.TakesAscii) {key s line : List Char}
    {before after : List (List Char × List Char)} (inLine : InLine key s line before after)
    (chars : ∀ c ∈ s, c.toNat < 128) (start : ∀ c ∈ s.head?, isdigit c = false ∧ c ≠ '-')
    (notTrue : s ≠ ['t', 'r', 'u', 'e']) (notFalse : s ≠ ['f', 'a', 'l', 's', 'e']) :
    DecodesTo line key s ↔
      Jansson.utf8CheckString key = true ∧
      (∀ pair ∈ before ++ after, accepts pair.1 pair.2 = true) ∧
      match lastText after key with
      | none => ∀ c ∈ s, c ≠ '"' ∧ c ≠ '\\'
      | some value => value = s := by
  have nonempty : before ++ (key, escapeQuotes s) :: after ≠ [] := by simp
  have here : accepts key (escapeQuotes s) = Jansson.utf8CheckString key := by
    rw [accepts, jsonValue_escapeQuotes ascii chars start notTrue notFalse]
    rfl
  have taken : (∀ pair ∈ before ++ (key, escapeQuotes s) :: after, accepts pair.1 pair.2 = true) ↔
      Jansson.utf8CheckString key = true ∧
        ∀ pair ∈ before ++ after, accepts pair.1 pair.2 = true := by
    rw [List.forall_mem_append, List.forall_mem_cons, List.forall_mem_append, here]
    exact and_left_comm
  rw [DecodesTo, nblexParseLogfmtLine_get?_iff nonempty inLine.pairs, taken, and_assoc,
    lastText_middle]
  refine and_congr_right fun _ => and_congr_right fun _ => ?_
  simp only [Option.some.injEq, exists_eq_left',
    jsonValue_eq_string_iff ascii chars start notTrue notFalse]
  cases lastText after key with
  | none => exact escapeQuotes_eq_self_iff s
  | some value => exact Iff.rfl

/-- `b=1 a="x y" c=2`. -/
theorem blankValue_inLine :
    InLine ['a'] "x y".toList "b=1 a=\"x y\" c=2".toList [(['b'], ['1'])] [(['c'], ['2'])] := by
  have number : ∀ key digit : Char, key.toNat < 128 → isKeyChar key = true →
      isdigit digit = true → decimalValue [digit] < 10 →
        (Pair.mk [key] (.integer false [digit])).Valid := by
    intro key digit ascii keyChar isDigit small
    have visible := isKeyChar_visible keyChar
    simp only [isKeyChar, Bool.and_eq_true, decide_eq_true_eq] at keyChar
    refine ⟨List.cons_ne_nil _ _, ?_, ⟨List.cons_ne_nil _ _, ?_⟩, ?_⟩
    · simpa using ⟨ascii, visible, keyChar.1⟩
    · simpa using isDigit
    · simp only [signed, Bool.false_eq_true, if_false]
      omega
  refine ⟨by simp, by simp [isKeyChar, isspace], [' '], " c=2".toList, by simp [isspace], ?_, ?_⟩
  · exact .cons (@text_pairText _ (number 'b' '1' (by decide) (by decide) (by decide) (by decide))
      [] (by simp) (" a=\"x y\" c=2".toList) (by rfl)) .nil
  · exact .cons (@text_pairText _ (number 'c' '2' (by decide) (by decide) (by decide) (by decide))
      [' '] (by simp [isspace]) [] trivial) .nil

theorem blankValue_decodesTo :
    @DecodesTo acceptingJansson "b=1 a=\"x y\" c=2".toList ['a'] "x y".toList :=
  (@decodesTo_iff acceptingJansson acceptingJansson_takesAscii _ _ _ _ _ blankValue_inLine
    (by simp) (by simp [isdigit]) (by simp) (by simp)).mpr ⟨rfl, by decide, by simp [lastText]⟩

/-- The quote in `x"y` keeps its backslash. -/
theorem innerQuote_not_decodesTo :
    ¬∀ (key s line : List Char) (before after : List (List Char × List Char)),
      InLine key s line before after → (∀ c ∈ s, c.toNat < 128) →
      (∀ c ∈ s.head?, isdigit c = false ∧ c ≠ '-') → s ≠ ['t', 'r', 'u', 'e'] →
      s ≠ ['f', 'a', 'l', 's', 'e'] → @DecodesTo acceptingJansson line key s := by
  intro decodes
  let _ := acceptingJansson
  have inLine : InLine ['a'] ['x', '"', 'y'] "a=\"x\\\"y\"".toList [] [] :=
    ⟨by simp, by simp [isKeyChar, isspace], [], [], nofun, .nil, .nil⟩
  have chars : ∀ c ∈ ['x', '"', 'y'], c.toNat < 128 := by simp
  have start : ∀ c ∈ ['x', '"', 'y'].head?, isdigit c = false ∧ c ≠ '-' := by simp [isdigit]
  have decoded := decodes _ _ _ _ _ inLine chars start (by simp) (by simp)
  obtain ⟨-, value, last, typed⟩ :=
    (nblexParseLogfmtLine_get?_iff (by simp) inLine.pairs _ _).mp decoded
  rw [jsonValue_eq_string_iff acceptingJansson_takesAscii chars start (by simp) (by simp)] at typed
  rw [lastText_middle, typed] at last
  exact absurd last (by decide)

end Logfmt

end Nblex
