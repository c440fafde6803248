import Nblex.Core.FilterEngine.Proofs.Rejections
import Mathlib.Data.Nat.Bits

/-!
# Terms that start with a name

The parser takes the `NOT`s a name begins with one by one, and the rest of the name is the field of
a comparison. The value behind the operator may be anything here.
-/

namespace Nblex

/-- Nothing of a keyword lies behind a word if the next character is none of its letters. -/
theorem startsWith_stop {keyword field rest : List Char} (stop : ∀ c ∈ rest.head?, c ∉ keyword) :
    startsWith (field ++ rest) keyword = startsWith field keyword := by
  induction keyword generalizing field with
  | nil => simp [startsWith]
  | cons k keyword ih =>
      cases field with
      | nil =>
          cases rest with
          | nil => rfl
          | cons c rest =>
              have other : k ≠ c := fun same => stop c rfl (same ▸ List.mem_cons_self)
              simp [startsWith, List.isPrefixOf, other]
      | cons c field =>
          have later : startsWith (field ++ rest) keyword = startsWith field keyword :=
            ih fun d member inside => stop d member (List.mem_cons_of_mem k inside)
          simp only [startsWith] at later ⊢
          rw [List.cons_append, List.isPrefixOf_cons_cons, List.isPrefixOf_cons_cons, later]

/-- Whether a name begins with a `NOT` is seen in the name alone. -/
theorem atNot_stop {field rest : List Char} (stop : ∀ c ∈ rest.head?, isFieldChar c = false) :
    atNot (field ++ rest) = atNot field := by
  have same : ∀ keyword : List Char, (∀ k ∈ keyword, isFieldChar k = true) →
      startsWith (field ++ rest) keyword = startsWith field keyword := by
    intro keyword letters
    apply startsWith_stop
    intro c member inside
    have letter := letters c inside
    rw [stop c member] at letter
    cases letter
  rw [atNot, atNot, same _ (by simp [isFieldChar, isalnum]),
    same _ (by simp [isFieldChar, isalnum])]

/-- What is left of a name has no `NOT` in front, and it is shorter by the `NOT`s. -/
theorem notPrefix_rest (name : List Char) :
    atNot (notPrefix name).2 = false ∧
      3 * (notPrefix name).1 + (notPrefix name).2.length = name.length ∧
      (notPrefix name).2 <:+ name := by
  induction length : name.length using Nat.strong_induction_on generalizing name with
  | _ n ih =>
      subst length
      cases negates : atNot name with
      | true =>
          have three := atNot_length negates
          have shorter : (name.drop 3).length = name.length - 3 := List.length_drop
          obtain ⟨plain, count, part⟩ := ih (name.drop 3).length (by omega) (name.drop 3) rfl
          rw [notPrefix_atNot negates]
          refine ⟨plain, ?_, part.trans (List.drop_suffix 3 name)⟩
          show 3 * ((notPrefix (name.drop 3)).1 + 1) + (notPrefix (name.drop 3)).2.length = _
          omega
      | false =>
          rw [notPrefix_plain negates]
          refine ⟨negates, ?_, List.suffix_refl name⟩
          show 3 * 0 + name.length = name.length
          omega

/-- A name without a `NOT` in front is left as it is. -/
theorem notPrefix_eq_self_iff (name : List Char) :
    (notPrefix name).2 = name ↔ atNot name = false := by
  constructor
  · intro same
    rw [← same]
    exact (notPrefix_rest name).1
  · intro plain
    rw [notPrefix_plain plain]

/-- A connective makes a conjunction or a disjunction. -/
theorem parseConnective_node {pos rest : List Char} {node : FilterNode → FilterNode → FilterNode}
    (read : parseConnective pos = some (node, rest)) : node = .and ∨ node = .or := by
  rw [parseConnective] at read
  split at read
  · exact Or.inl (Prod.mk.inj (Option.some.inj read)).1.symm
  · split at read
    · exact Or.inr (Prod.mk.inj (Option.some.inj read)).1.symm
    · cases read

/-- An operator is read whole in front of anything but an equals sign. -/
theorem parseFilterOp_stop (op : FilterOp) {rest : List Char} (stop : ∀ c ∈ rest.head?, c ≠ '=') :
    parseFilterOp (op.text ++ rest) = some (op, rest) := by
  have noEquals : ¬['='] <+: rest := by
    rintro ⟨tail, rfl⟩
    exact stop '=' rfl rfl
  cases op with
  | lt | gt => simp [FilterOp.text, parseFilterOp, startsWith, noEquals]
  | eq | ne | le | ge | patMatch | patNmatch | isIn | contains => rfl

theorem skipSpace_op (op : FilterOp) (rest : List Char) :
    skipSpace (op.text ++ rest) = op.text ++ rest := by
  cases op <;> rfl

/-- A name ends at a blank and at the operators that are no words. -/
theorem spaced_stop {op : FilterOp} {before : List Char} (blank : ∀ c ∈ before, isspace c = true)
    (spaced : before = [] → op ≠ .isIn ∧ op ≠ .contains) (rest : List Char) :
    ∀ c ∈ (before ++ (op.text ++ rest)).head?, isFieldChar c = false := by
  intro c member
  cases before with
  | nil =>
      obtain ⟨noIn, noContains⟩ := spaced rfl
      cases op with
      | isIn => exact absurd rfl noIn
      | contains => exact absurd rfl noContains
      | eq | ne | lt | le | gt | ge | patMatch | patNmatch =>
          rw [← Option.some.inj member]
          rfl
  | cons b before =>
      rw [← Option.some.inj member]
      apply Bool.eq_false_iff.mpr
      intro fieldChar
      have space := blank b List.mem_cons_self
      rw [(fieldChar_plain fieldChar).1] at space
      cases space

section Terms

variable [Pcre2] {name rest : List Char}

/-- The `NOT`s of a name are read one by one. -/
theorem parseFilterExpr_named (chars : ∀ c ∈ name, isFieldChar c = true)
    (stop : ∀ c ∈ rest.head?, isFieldChar c = false) (fuel : Nat) :
    parseFilterExpr ((notPrefix name).1 + fuel) (name ++ rest) =
      (parseFilterExpr fuel ((notPrefix name).2 ++ rest)).map
        (fun read => (negated (notPrefix name).1 read.1, read.2)) := by
  induction length : name.length using Nat.strong_induction_on generalizing name with
  | _ n ih =>
      subst length
      cases negates : atNot name with
      | false =>
          rw [notPrefix_plain negates, Nat.zero_add]
          exact Option.map_id'.symm
      | true =>
          have three := atNot_length negates
          have shorter : (name.drop 3).length < name.length := by
            rw [List.length_drop]
            omega
          have behind := ih _ shorter (fun c member => chars c (List.mem_of_mem_drop member)) rfl
          have notParen : atNot (name ++ rest) = true := (atNot_stop stop).trans negates
          rw [notPrefix_atNot negates]
          cases name with
          | nil => cases negates
          | cons c name =>
              obtain ⟨noSpace, noParen, -⟩ := fieldChar_plain (chars c List.mem_cons_self)
              rw [Nat.add_right_comm, List.cons_append, parseFilterExpr_word _ _ noSpace noParen,
                ← List.cons_append, if_pos notParen, drop_word negates, behind, Option.map_map]
              rfl

/-- The rest of the name is the field of a comparison. -/
theorem parseFilterExpr_field (chars : ∀ c ∈ name, isFieldChar c = true)
    (stop : ∀ c ∈ rest.head?, isFieldChar c = false) (remains : (notPrefix name).2 ≠ [])
    {fuel : Nat} (enough : name.length < fuel) :
    parseFilterExpr fuel (name ++ rest) =
      (parseFilterAtom ((notPrefix name).2 ++ rest)).map
        (fun read => (negated (notPrefix name).1 read.1, read.2)) := by
  obtain ⟨plain, count, part⟩ := notPrefix_rest name
  obtain ⟨more, rfl⟩ : ∃ more, fuel = (notPrefix name).1 + (more + 1) :=
    ⟨fuel - (notPrefix name).1 - 1, by omega⟩
  rw [parseFilterExpr_named chars stop]
  have noNot : atNot ((notPrefix name).2 ++ rest) = false := (atNot_stop stop).trans plain
  cases left : (notPrefix name).2 with
  | nil => exact absurd left remains
  | cons c field =>
      rw [left] at part noNot
      obtain ⟨noSpace, noParen, -⟩ := fieldChar_plain (chars c (part.subset List.mem_cons_self))
      rw [List.cons_append, parseFilterExpr_word _ _ noSpace noParen, ← List.cons_append, noNot,
        if_neg Bool.false_ne_true]

/-- A name that is all `NOT`s leaves the term to what follows it. -/
theorem parseFilterExpr_noField (chars : ∀ c ∈ name, isFieldChar c = true)
    (stop : ∀ c ∈ rest.head?, isFieldChar c = false) (nothing : (notPrefix name).2 = [])
    (missing : TermMissing rest) {fuel : Nat} (enough : name.length < fuel) :
    parseFilterExpr fuel (name ++ rest) = none := by
  obtain ⟨-, count, -⟩ := notPrefix_rest name
  obtain ⟨more, rfl⟩ : ∃ more, fuel = (notPrefix name).1 + (more + 1) :=
    ⟨fuel - (notPrefix name).1 - 1, by omega⟩
  rw [parseFilterExpr_named chars stop, nothing, List.nil_append, missing.none, Option.map_none]

/-- A field, an operator and what is read as the value, with blanks around the operator; an operator
    that is a word needs one in front. -/
theorem parseFilterAtom_spaced (nonempty : name ≠ []) (chars : ∀ c ∈ name, isFieldChar c = true)
    {op : FilterOp} {before after value : List Char} (blankBefore : ∀ c ∈ before, isspace c = true)
    (blankAfter : ∀ c ∈ after, isspace c = true)
    (spaced : before = [] → op ≠ .isIn ∧ op ≠ .contains)
    (ends : ∀ c ∈ (after ++ value).head?, c ≠ '=') (visible : skipSpace value = value) :
    parseFilterAtom (name ++ (before ++ (op.text ++ (after ++ value)))) =
      some (.expr ⟨String.ofList name, op, (parseFilterValue op value).1,
        (parseFilterValue op value).2.1⟩, (parseFilterValue op value).2.2) := by
  obtain ⟨taken, dropped⟩ := takeWhile_stop chars (spaced_stop blankBefore spaced (after ++ value))
  have blanks : ∀ {front back : List Char}, (∀ c ∈ front, isspace c = true) →
      skipSpace (front ++ back) = skipSpace back := fun blank => List.dropWhile_append_of_pos blank
  rw [parseFilterAtom, taken, dropped, blanks blankBefore, skipSpace_op, parseFilterOp_stop op ends]
  cases name with
  | nil => exact absurd rfl nonempty
  | cons c name => simp only [blanks blankAfter, visible]

end Terms

/-! ## What a comparison means -/

/-- No term begins with an operator that is no word. -/
theorem termMissing_symbol {op : FilterOp} (symbol : op ≠ .isIn ∧ op ≠ .contains)
    (rest : List Char) : TermMissing (' ' :: (op.text ++ rest)) := by
  have start : skipSpace (' ' :: (op.text ++ rest)) = op.text ++ rest := by
    rw [skipSpace_blank, skipSpace_op]
  apply TermMissing.field
  · rw [start]
    cases op <;> simp [FilterOp.text]
  · rw [start]
    cases op with
    | isIn => exact absurd rfl symbol.1
    | contains => exact absurd rfl symbol.2
    | eq | ne | lt | le | gt | ge | patMatch | patNmatch => rfl

/-- A comparison as it is usually written; the value may be anything. -/
def comparisonText (name : List Char) (op : FilterOp) (value : List Char) : List Char :=
  name ++ ' ' :: (op.text ++ ' ' :: value)

/-- An event with one field. -/
def oneFieldEvent (name : String) (value : Json) : Event where
  type := .log
  timestampNs := 0
  input := none
  data := some (.object [(name, value)])

theorem oneFieldEvent_get? (name : String) (value : Json) :
    (Json.object [(name, value)]).get? name = some value := by simp [Json.get?]

theorem comparisonText_stop (op : FilterOp) (value : List Char) :
    ∀ c ∈ (' ' :: (op.text ++ ' ' :: value)).head?, isFieldChar c = false := by
  rintro c ⟨⟩
  rfl

theorem comparisonText_length (name : List Char) (op : FilterOp) (value : List Char) :
    name.length < (comparisonText name op value).length + 1 := by
  rw [comparisonText, List.length_append]
  omega

section Meaning

variable [Pcre2]

/-- The term of a comparison, and what is left behind its value. -/
theorem parseFilterExpr_comparisonText {name : List Char}
    (chars : ∀ c ∈ name, isFieldChar c = true) (remains : (notPrefix name).2 ≠ []) {op : FilterOp}
    {value : List Char} (visible : skipSpace value = value) {read : FilterValue}
    {code : Option String} {rest : List Char}
    (reads : parseFilterValue op value = (read, code, rest))
    {fuel : Nat} (enough : name.length < fuel) :
    parseFilterExpr fuel (comparisonText name op value) =
      some (negated (notPrefix name).1
        (.expr ⟨String.ofList (notPrefix name).2, op, read, code⟩), rest) := by
  obtain ⟨-, -, part⟩ := notPrefix_rest name
  have atom := @parseFilterAtom_spaced _ _ remains (fun c member => chars c (part.subset member)) op
    [' '] [' '] value (by simp [isspace]) (by simp [isspace]) nofun (by simp) visible
  rw [reads] at atom
  exact (parseFilterExpr_field chars (comparisonText_stop op value) remains enough).trans
    (congrArg (Option.map _) atom)

theorem evaluateFilterNode_negated (n : Nat) (node : FilterNode) (data : Json) :
    evaluateFilterNode (negated n node) data = (n.bodd ^^ evaluateFilterNode node data) := by
  induction n with
  | zero => exact (Bool.false_xor _).symm
  | succ n ih =>
      rw [negated, evaluateFilterNode, ih, Nat.bodd_succ]
      exact (Bool.not_xor _ _).symm

/-- The value of a text that is one comparison. -/
theorem matchesText_remains {name : List Char} (chars : ∀ c ∈ name, isFieldChar c = true)
    (remains : (notPrefix name).2 ≠ []) {op : FilterOp} {value : List Char}
    (visible : skipSpace value = value) {read : FilterValue} {code : Option String}
    (reads : parseFilterValue op value = (read, code, [])) {event : Event} {data : Json}
    (carried : event.data = some data) :
    matchesText (comparisonText name op value) event =
      ((notPrefix name).1.bodd ^^
        evaluateFilterExpr ⟨String.ofList (notPrefix name).2, op, read, code⟩ data) := by
  rw [matchesText, filterResult, nblexFilterNew, parseFilterFull,
    parseFilterExpr_comparisonText chars remains visible reads
      (comparisonText_length name op value)]
  show nblexFilterMatches _ event = _
  rw [nblexFilterMatches, carried]
  exact evaluateFilterNode_negated _ _ _

/-- A comparison in front of which nothing is left of the name is no filter. -/
theorem matchesText_noField {name rest : List Char} (chars : ∀ c ∈ name, isFieldChar c = true)
    (stop : ∀ c ∈ rest.head?, isFieldChar c = false) (nothing : (notPrefix name).2 = [])
    (missing : TermMissing rest) (event : Event) : matchesText (name ++ rest) event = false := by
  have enough : name.length < (name ++ rest).length + 1 := by
    rw [List.length_append]
    omega
  rw [matchesText, filterResult, nblexFilterNew, parseFilterFull,
    parseFilterExpr_noField chars stop nothing missing enough]
  rfl

/-- A comparison looks at the rest of the name, under the `NOT`s in front of it. -/
theorem matchesText_comparison {name : List Char} (chars : ∀ c ∈ name, isFieldChar c = true)
    {op : FilterOp} (symbol : op ≠ .isIn ∧ op ≠ .contains) {value : List Char}
    (visible : skipSpace value = value) {read : FilterValue} {code : Option String}
    (reads : parseFilterValue op value = (read, code, [])) {event : Event} {data : Json}
    (carried : event.data = some data) :
    matchesText (comparisonText name op value) event =
      if (notPrefix name).2 = [] then false
      else (notPrefix name).1.bodd ^^
        evaluateFilterExpr ⟨String.ofList (notPrefix name).2, op, read, code⟩ data := by
  split
  · next nothing =>
    exact matchesText_noField chars (comparisonText_stop op value) nothing
      (termMissing_symbol symbol _) event
  · next remains => exact matchesText_remains chars remains visible reads carried

/-- A comparison of a name with a `NOT` in front gives the same on every event that has just the
    field of the whole name. -/
theorem matchesText_notName {name : List Char} (chars : ∀ c ∈ name, isFieldChar c = true)
    (negates : atNot name = true) {op : FilterOp} (symbol : op ≠ .isIn ∧ op ≠ .contains)
    {value : List Char} (visible : skipSpace value = value) {read : FilterValue}
    {code : Option String} (reads : parseFilterValue op value = (read, code, [])) (field : Json) :
    matchesText (comparisonText name op value) (oneFieldEvent (String.ofList name) field) =
      (decide ((notPrefix name).2 ≠ []) && (notPrefix name).1.bodd) := by
  have other : String.ofList name ≠ String.ofList (notPrefix name).2 := by
    intro same
    have plain := (notPrefix_eq_self_iff name).mp (String.ofList_inj.mp same).symm
    rw [negates] at plain
    cases plain
  have missing : (Json.object [(String.ofList name, field)]).get?
      (String.ofList (notPrefix name).2) = none := by simp [Json.get?, other]
  rw [matchesText_comparison chars symbol visible reads rfl, evaluateFilterExpr, missing]
  by_cases remains : (notPrefix name).2 = []
  · simp [remains]
  · simp [remains]

end Meaning

end Nblex
