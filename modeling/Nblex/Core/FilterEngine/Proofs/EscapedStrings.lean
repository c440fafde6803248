import Nblex.Core.FilterEngine.Proofs.NumberFilters

/-!
# Escaped strings

The scan over a quoted string passes over escaped characters, and the string that is kept has the
backslashes in it.
-/

namespace Nblex

/-- A backslash in front of each quote and each backslash. -/
def escapeQuotes (s : List Char) : List Char :=
  s.flatMap fun c => if c = '"' ∨ c = '\\' then ['\\', c] else [c]

/-- The string in quotes, with its quotes and backslashes escaped. -/
def quotedText (s : List Char) : List Char := '"' :: (escapeQuotes s ++ ['"'])

theorem escapeQuotes_cons (c : Char) (s : List Char) :
    escapeQuotes (c :: s) = (if c = '"' ∨ c = '\\' then ['\\', c] else [c]) ++ escapeQuotes s :=
  List.flatMap_cons

/-- The closing quote is not taken for a part of the string. -/
theorem quoted_escapeQuotes (s : List Char) : Quoted (escapeQuotes s) := by
  induction s with
  | nil => exact .nil
  | cons c s ih =>
      rw [escapeQuotes_cons]
      split
      · exact .escaped ih
      · next plain =>
        obtain ⟨noQuote, noBackslash⟩ := not_or.mp plain
        exact .plain noQuote noBackslash ih

theorem length_le_escapeQuotes (s : List Char) : s.length ≤ (escapeQuotes s).length := by
  induction s with
  | nil => exact Nat.le_refl _
  | cons c s ih =>
      rw [escapeQuotes_cons, List.length_append, List.length_cons]
      split
      · simp only [List.length_cons, List.length_nil]
        omega
      · simp only [List.length_cons, List.length_nil]
        omega

/-- Escaping changes every string with a quote or a backslash. -/
theorem escapeQuotes_eq_self_iff (s : List Char) :
    escapeQuotes s = s ↔ ∀ c ∈ s, c ≠ '"' ∧ c ≠ '\\' := by
  induction s with
  | nil => simp [escapeQuotes]
  | cons c s ih =>
      rw [escapeQuotes_cons, List.forall_mem_cons, ← ih]
      split
      · next special =>
        refine iff_of_false (fun same => ?_) (fun plain => ?_)
        · have longer := congrArg List.length same
          have kept := length_le_escapeQuotes s
          simp only [List.length_append, List.length_cons, List.length_nil] at longer
          omega
        · exact special.elim plain.1.1 plain.1.2
      · next plain => simpa using fun _ => not_or.mp plain

section Strings

variable [Pcre2]

/-- The string that is kept. -/
theorem quotedText_readsAs (s : List Char) :
    ReadsAs (quotedText s) (.string (String.ofList (escapeQuotes s))) :=
  @FilterLiteral.Valid.readsAs _ (.string (escapeQuotes s)) (quoted_escapeQuotes s)

/-- The filter matches the events whose field is the string. -/
def MatchesString (name s : List Char) : Prop :=
  ∀ event : Event, matchesText (comparisonText name .eq (quotedText s)) event = true ↔
    ∃ data, event.data = some data ∧ data.get? (String.ofList name) =
      some (.string (String.ofList s))

/-- With a name without a `NOT` in front the field is compared with the string that is kept. -/
theorem matchesText_quotedText {name : List Char} (nonempty : name ≠ [])
    (chars : ∀ c ∈ name, isFieldChar c = true) (plainName : atNot name = false) (s : List Char)
    (event : Event) :
    matchesText (comparisonText name .eq (quotedText s)) event = true ↔
      ∃ data, event.data = some data ∧
        data.get? (String.ofList name) = some (.string (String.ofList (escapeQuotes s))) := by
  cases carried : event.data with
  | none => simp [matchesText_noData _ carried]
  | some data =>
      have reads := quotedText_readsAs s
      have gives := matchesText_comparison chars (by simp) reads.visible (reads.reads .eq) carried
      rw [notPrefix_plain plainName, if_neg nonempty, Nat.bodd_zero, Bool.false_xor,
        evaluateFilterExpr] at gives
      rw [gives]
      cases found : data.get? (String.ofList name) with
      | none => simp [found]
      | some field => cases field <;> simp [found, fieldEquals]

/-- The filter on an escaped string matches the events whose field is the string exactly when there
    was nothing to escape and the name has no `NOT` in front. -/
theorem matchesString_iff {name : List Char} (nonempty : name ≠ [])
    (chars : ∀ c ∈ name, isFieldChar c = true) (s : List Char) :
    MatchesString name s ↔ atNot name = false ∧ ∀ c ∈ s, c ≠ '"' ∧ c ≠ '\\' := by
  constructor
  · intro holds
    cases negates : atNot name with
    | true =>
        -- the filter does not look at the field of the whole name
        have reads := quotedText_readsAs s
        have equal := (holds (oneFieldEvent (String.ofList name) (.string (String.ofList s)))).mpr
          ⟨_, rfl, oneFieldEvent_get? _ _⟩
        rw [matchesText_notName chars negates (by simp) reads.visible (reads.reads .eq)] at equal
        have missing := holds (oneFieldEvent (String.ofList name) .null)
        rw [matchesText_notName chars negates (by simp) reads.visible (reads.reads .eq)] at missing
        obtain ⟨data, carried, found⟩ := missing.mp equal
        obtain rfl := Option.some.inj carried
        rw [oneFieldEvent_get?] at found
        cases found
    | false =>
        refine ⟨rfl, (escapeQuotes_eq_self_iff s).mp ?_⟩
        have equal := (holds (oneFieldEvent (String.ofList name) (.string (String.ofList s)))).mpr
          ⟨_, rfl, oneFieldEvent_get? _ _⟩
        obtain ⟨data, carried, found⟩ :=
          (matchesText_quotedText nonempty chars negates s _).mp equal
        obtain rfl := Option.some.inj carried
        rw [oneFieldEvent_get?] at found
        exact (String.ofList_inj.mp (Json.string.inj (Option.some.inj found))).symm
  · rintro ⟨plainName, plain⟩ event
    rw [matchesText_quotedText nonempty chars plainName, (escapeQuotes_eq_self_iff s).mpr plain]

end Strings

/-- The path `C:\` in a filter does not match the path. -/
theorem path_not_matchesString : ¬ @MatchesString literalPcre2 "path".toList "C:\\".toList := by
  intro holds
  obtain ⟨data, carried, found⟩ := (@matchesText_quotedText literalPcre2 "path".toList (by simp)
    (by simp [isFieldChar, isalnum]) (by simp [atNot, startsWith, List.isPrefixOf]) "C:\\".toList
    (oneFieldEvent "path" (.string "C:\\"))).mp
      ((holds _).mpr ⟨_, rfl, by simp [oneFieldEvent_get?]⟩)
  obtain rfl := Option.some.inj carried
  simp [Json.get?, escapeQuotes] at found

theorem path_matchesString : @MatchesString literalPcre2 "path".toList "/var/log".toList :=
  (@matchesString_iff literalPcre2 "path".toList (by simp) (by simp [isFieldChar, isalnum])
    "/var/log".toList).mpr ⟨by simp [atNot, startsWith, List.isPrefixOf], by simp⟩

end Nblex
