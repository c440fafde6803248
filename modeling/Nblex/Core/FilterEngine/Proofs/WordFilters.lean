import Nblex.Core.FilterEngine.WordFilters
import Nblex.Core.FilterEngine.Proofs.PrintedAtoms

/-!
# Prefixes taken for keywords

The parser agrees with the reading of whole keywords on a text just when it takes no letters for a
keyword that do not end there: the tree it makes otherwise is another one from that term on.
-/

namespace Nblex

/-! ## Terms -/

theorem wordNot_of_glued {pos : List Char} (glued : endsWord (pos.drop 3) = false) :
    wordNot pos = false := by
  rw [wordNot, glued, Bool.and_false]

theorem wordFilterOp_glued {pos rest : List Char} {op : FilterOp}
    (operator : parseFilterOp pos = some (op, rest)) (word : op = .isIn ∨ op = .contains)
    (glued : endsWord rest = false) : wordFilterOp pos = none := by
  rw [wordFilterOp, operator]
  exact if_pos ⟨word, glued⟩

theorem wordFilterOp_ends {pos : List Char}
    (ends : ∀ op rest, parseFilterOp pos = some (op, rest) → op = .isIn ∨ op = .contains →
      endsWord rest = true) : wordFilterOp pos = parseFilterOp pos := by
  rw [wordFilterOp]
  cases operator : parseFilterOp pos with
  | none => rfl
  | some found =>
      obtain ⟨op, rest⟩ := found
      refine if_neg fun ⟨word, glued⟩ => ?_
      rw [ends op rest operator word] at glued
      cases glued

section Terms

variable [Pcre2]

/-- A word term in parentheses. -/
theorem wordFilterExpr_paren (fuel : Nat) {expr rest : List Char}
    (paren : skipSpace expr = '(' :: rest) :
    wordFilterExpr (fuel + 1) expr =
      (wordFilterExpr fuel rest).map (fun read => (read.1, skipClose (skipSpace read.2))) := by
  rw [wordFilterExpr, paren]
  split
  · next tail isParen =>
    obtain ⟨-, rfl⟩ := List.cons.inj isParen
    cases wordFilterExpr fuel rest with
    | none => rfl
    | some read => rfl
  · next noParen => exact absurd rfl (noParen rest)

theorem wordFilterExpr_noParen (fuel : Nat) {expr : List Char}
    (noParen : ∀ rest, skipSpace expr ≠ '(' :: rest) :
    wordFilterExpr (fuel + 1) expr =
      if wordNot (skipSpace expr) then
        (wordFilterExpr fuel ((skipSpace expr).drop 3)).map (fun read => (.not read.1, read.2))
      else wordFilterAtom (skipSpace expr) := by
  rw [wordFilterExpr]
  split
  · next tail isParen => exact absurd isParen (noParen tail)
  · cases wordFilterExpr fuel ((skipSpace expr).drop 3) with
    | none => rfl
    | some read => rfl

/-- A comparison is no negation. -/
theorem wordFilterAtom_node {pos after : List Char} {node : FilterNode}
    (read : wordFilterAtom pos = some (node, after)) : ∃ e, node = .expr e := by
  rw [wordFilterAtom] at read
  split at read
  · cases read
  · split at read
    · cases read
    · exact ⟨_, (Prod.mk.inj (Option.some.inj read)).1.symm⟩

theorem parseFilterAtom_node {pos after : List Char} {node : FilterNode}
    (read : parseFilterAtom pos = some (node, after)) : ∃ e, node = .expr e := by
  rw [parseFilterAtom] at read
  split at read
  · cases read
  · split at read
    · cases read
    · exact ⟨_, (Prod.mk.inj (Option.some.inj read)).1.symm⟩

/-- Where no letters are taken for a keyword the term is read in the same way. -/
theorem wordFilterExpr_of_not_slips (fuel : Nat) : ∀ {pos : List Char}, ¬ TermSlips pos →
    wordFilterExpr fuel pos = parseFilterExpr fuel pos := by
  induction fuel with
  | zero => exact fun _ => rfl
  | succ fuel ih =>
      intro pos steady
      by_cases paren : ∃ rest, skipSpace pos = '(' :: rest
      · obtain ⟨rest, paren⟩ := paren
        rw [wordFilterExpr_paren fuel paren, parseFilterExpr_paren fuel paren,
          ih fun slips => steady (.group paren slips)]
      · have noParen : ∀ rest, skipSpace pos ≠ '(' :: rest := fun rest same => paren ⟨rest, same⟩
        rw [wordFilterExpr_noParen fuel noParen, parseFilterExpr_noParen fuel noParen]
        cases negation : atNot (skipSpace pos) with
        | true =>
            have ends : endsWord ((skipSpace pos).drop 3) = true := by
              apply Bool.of_not_eq_false
              exact fun glued => steady (.negation negation glued)
            rw [wordNot, negation, ends, Bool.and_self, if_pos rfl, if_pos rfl,
              ih fun slips => steady (.operand negation slips)]
        | false =>
            rw [wordNot, negation, Bool.false_and, if_neg Bool.false_ne_true,
              if_neg Bool.false_ne_true, wordFilterAtom]
            by_cases field : (skipSpace pos).takeWhile isFieldChar = []
            · rw [parseFilterAtom, field]
            · have ends : wordFilterOp (skipSpace ((skipSpace pos).dropWhile isFieldChar)) =
                  parseFilterOp (skipSpace ((skipSpace pos).dropWhile isFieldChar)) := by
                apply wordFilterOp_ends
                intro op rest operator word
                apply Bool.of_not_eq_false
                exact fun glued => steady (.operator negation field operator word glued)
              rw [ends]
              rfl

/-- Where letters are taken for a keyword, whole keywords make another term or none. -/
theorem TermSlips.differs {pos : List Char} (slips : TermSlips pos) :
    ∀ {fuel : Nat} {node : FilterNode} {after after' : List Char},
      parseFilterExpr fuel pos = some (node, after) →
      wordFilterExpr fuel pos ≠ some (node, after') := by
  induction slips with
  | @group pos rest paren inner ih =>
      intro fuel node after after' read word
      obtain _ | fuel := fuel
      · cases read
      · rw [parseFilterExpr_paren fuel paren] at read
        rw [wordFilterExpr_paren fuel paren] at word
        obtain ⟨⟨node', stop⟩, inside, same⟩ := Option.map_eq_some_iff.mp read
        obtain ⟨⟨node'', stop'⟩, inside', same'⟩ := Option.map_eq_some_iff.mp word
        obtain ⟨rfl, -⟩ := Prod.mk.inj same
        obtain ⟨rfl, -⟩ := Prod.mk.inj same'
        exact ih inside inside'
  | @negation pos negation glued =>
      intro fuel node after after' read word
      obtain _ | fuel := fuel
      · cases read
      · have noParen := noParen_of_negation negation
        rw [parseFilterExpr_noParen fuel noParen, if_pos negation] at read
        rw [wordFilterExpr_noParen fuel noParen, if_neg (by simp [wordNot_of_glued glued])] at word
        obtain ⟨operand, -, same⟩ := Option.map_eq_some_iff.mp read
        obtain ⟨rfl, -⟩ := Prod.mk.inj same
        obtain ⟨e, isExpr⟩ := wordFilterAtom_node word
        cases isExpr
  | @operand pos negation inner ih =>
      intro fuel node after after' read word
      obtain _ | fuel := fuel
      · cases read
      · have noParen := noParen_of_negation negation
        rw [parseFilterExpr_noParen fuel noParen, if_pos negation] at read
        rw [wordFilterExpr_noParen fuel noParen] at word
        obtain ⟨⟨operand, stop⟩, inside, same⟩ := Option.map_eq_some_iff.mp read
        obtain ⟨rfl, -⟩ := Prod.mk.inj same
        split at word
        · obtain ⟨⟨operand', stop'⟩, inside', same'⟩ := Option.map_eq_some_iff.mp word
          obtain ⟨sameNode, -⟩ := Prod.mk.inj same'
          obtain rfl := FilterNode.not.inj sameNode
          exact ih inside inside'
        · obtain ⟨e, isExpr⟩ := wordFilterAtom_node word
          cases isExpr
  | @operator pos rest op noNegation field operator isWord glued =>
      intro fuel node after after' read word
      obtain _ | fuel := fuel
      · cases read
      · rw [wordFilterExpr_noParen fuel (noParen_of_field field),
          if_neg (by simp [wordNot, noNegation]), wordFilterAtom,
          wordFilterOp_glued operator isWord glued] at word
        split at word <;> cases word

end Terms

/-! ## Chains of terms -/

/-- The terms that a tree was built from, from left to right. -/
def FilterNode.spine : FilterNode → List FilterNode
  | .and left right => left.spine ++ [right]
  | .or left right => left.spine ++ [right]
  | .not operand => [.not operand]
  | .expr e => [.expr e]

theorem spine_connective {pos rest : List Char} {node : FilterNode → FilterNode → FilterNode}
    (read : parseConnective pos = some (node, rest)) (left right : FilterNode) :
    (node left right).spine = left.spine ++ [right] := by
  obtain rfl | rfl := parseConnective_node read
  · rfl
  · rfl

/-- Trees that go on with different terms are different. -/
theorem spine_ne {done : List FilterNode} {right right' : FilterNode} {tree tree' : FilterNode}
    (first : done ++ [right] <+: tree.spine) (second : done ++ [right'] <+: tree'.spine)
    (different : right ≠ right') : tree ≠ tree' := by
  rintro rfl
  have same := List.prefix_of_prefix_length_le first second (by simp)
  have whole := same.eq_of_length (by simp)
  exact different (List.singleton_inj.mp (List.append_cancel_left whole))

theorem wordConnective_some {pos rest : List Char} {node : FilterNode → FilterNode → FilterNode}
    (read : wordConnective pos = some (node, rest)) :
    parseConnective pos = some (node, rest) ∧ endsWord rest = true := by
  rw [wordConnective] at read
  cases connective : parseConnective pos with
  | none =>
      rw [connective] at read
      cases read
  | some found =>
      obtain ⟨node', rest'⟩ := found
      rw [connective] at read
      dsimp only at read
      split at read
      · next ends =>
        obtain ⟨rfl, rfl⟩ := Prod.mk.inj (Option.some.inj read)
        exact ⟨rfl, ends⟩
      · cases read

theorem wordConnective_of_parse {pos rest : List Char} {node : FilterNode → FilterNode → FilterNode}
    (read : parseConnective pos = some (node, rest)) :
    wordConnective pos = if endsWord rest then some (node, rest) else none := by
  rw [wordConnective, read]

/-- A loop over connectives and terms keeps the terms it has read. -/
theorem spine_of_loop {loop : Nat → FilterNode → List Char → Option (FilterNode × List Char)}
    {connective : List Char → Option ((FilterNode → FilterNode → FilterNode) × List Char)}
    {term : Nat → List Char → Option (FilterNode × List Char)}
    (stops : ∀ left pos, loop 0 left pos = none)
    (turn : ∀ fuel left pos, loop (fuel + 1) left pos =
      match connective (skipSpace pos) with
      | none => some (left, skipSpace pos)
      | some (node, pos) =>
          match term fuel pos with
          | none => none
          | some (right, pos) => loop fuel (node left right) pos)
    (reads : ∀ {pos node rest}, connective pos = some (node, rest) →
      parseConnective pos = some (node, rest)) (fuel : Nat) :
    ∀ {left tree : FilterNode} {pos rest : List Char},
      loop fuel left pos = some (tree, rest) → left.spine <+: tree.spine := by
  induction fuel with
  | zero =>
      intro left tree pos rest read
      rw [stops] at read
      cases read
  | succ fuel ih =>
      intro left tree pos rest read
      rw [turn] at read
      cases found : connective (skipSpace pos) with
      | none =>
          rw [found] at read
          obtain ⟨rfl, -⟩ := Prod.mk.inj (Option.some.inj read)
          exact List.prefix_refl _
      | some next =>
          rw [found] at read
          dsimp only at read
          cases right : term fuel next.2 with
          | none =>
              rw [right] at read
              cases read
          | some right' =>
              rw [right] at read
              have further := ih read
              rw [spine_connective (reads found)] at further
              exact (List.prefix_append _ _).trans further

/-- A term that is read behind parentheses and negations from comparisons is neither a conjunction
    nor a disjunction. -/
theorem spine_of_term {term : Nat → List Char → Option (FilterNode × List Char)}
    {negation : List Char → Bool} {atom : List Char → Option (FilterNode × List Char)}
    (stops : ∀ pos, term 0 pos = none)
    (paren : ∀ fuel {pos rest}, skipSpace pos = '(' :: rest → term (fuel + 1) pos =
      (term fuel rest).map (fun read => (read.1, skipClose (skipSpace read.2))))
    (noParen : ∀ fuel {pos}, (∀ rest, skipSpace pos ≠ '(' :: rest) → term (fuel + 1) pos =
      if negation (skipSpace pos) then
        (term fuel ((skipSpace pos).drop 3)).map (fun read => (.not read.1, read.2))
      else atom (skipSpace pos))
    (isAtom : ∀ {pos node after}, atom pos = some (node, after) → ∃ e, node = .expr e)
    (fuel : Nat) :
    ∀ {pos after : List Char} {node : FilterNode},
      term fuel pos = some (node, after) → node.spine = [node] := by
  induction fuel with
  | zero =>
      intro pos after node read
      rw [stops] at read
      cases read
  | succ fuel ih =>
      intro pos after node read
      by_cases isParen : ∃ rest, skipSpace pos = '(' :: rest
      · obtain ⟨rest, isParen⟩ := isParen
        rw [paren fuel isParen] at read
        obtain ⟨⟨node', stop⟩, inside, same⟩ := Option.map_eq_some_iff.mp read
        obtain ⟨rfl, -⟩ := Prod.mk.inj same
        exact ih inside
      · rw [noParen fuel fun rest same => isParen ⟨rest, same⟩] at read
        split at read
        · obtain ⟨operand, -, same⟩ := Option.map_eq_some_iff.mp read
          obtain ⟨rfl, -⟩ := Prod.mk.inj same
          rfl
        · obtain ⟨e, rfl⟩ := isAtom read
          rfl

section Loops

variable [Pcre2]

theorem parseFilterLoop_spine {fuel : Nat} {left tree : FilterNode} {pos rest : List Char}
    (read : parseFilterLoop fuel left pos = some (tree, rest)) : left.spine <+: tree.spine :=
  spine_of_loop (fun _ _ => rfl) (fun _ _ _ => rfl) id fuel read

theorem wordFilterLoop_spine {fuel : Nat} {left tree : FilterNode} {pos rest : List Char}
    (read : wordFilterLoop fuel left pos = some (tree, rest)) : left.spine <+: tree.spine :=
  spine_of_loop (fun _ _ => rfl) (fun _ _ _ => rfl)
    (fun found => (wordConnective_some found).1) fuel
    read

theorem parseFilterExpr_spine {fuel : Nat} {pos after : List Char} {node : FilterNode}
    (read : parseFilterExpr fuel pos = some (node, after)) : node.spine = [node] :=
  spine_of_term (fun _ => rfl) parseFilterExpr_paren parseFilterExpr_noParen
    parseFilterAtom_node fuel
    read

theorem wordFilterExpr_spine {fuel : Nat} {pos after : List Char} {node : FilterNode}
    (read : wordFilterExpr fuel pos = some (node, after)) : node.spine = [node] :=
  spine_of_term (fun _ => rfl) wordFilterExpr_paren wordFilterExpr_noParen wordFilterAtom_node fuel
    read

/-- What a term that was read leaves. -/
theorem termRead_of_parse {fuel : Nat} {pos after : List Char} {node : FilterNode}
    (enough : pos.length < fuel) (read : parseFilterExpr fuel pos = some (node, after)) :
    TermRead pos after := by
  obtain missing | ⟨after', term⟩ := termMissing_or_termRead pos
  · rw [missing.none] at read
    cases read
  · obtain ⟨node', read'⟩ := term.some fuel enough
    rw [read'] at read
    obtain ⟨-, rfl⟩ := Prod.mk.inj (Option.some.inj read)
    exact term

theorem TermRead.unique {pos after after' : List Char} (term : TermRead pos after)
    (term' : TermRead pos after') : after = after' := by
  obtain ⟨node, read⟩ := term.some (pos.length + 1) (Nat.lt_succ_self _)
  obtain ⟨node', read'⟩ := term'.some (pos.length + 1) (Nat.lt_succ_self _)
  rw [read] at read'
  exact (Prod.mk.inj (Option.some.inj read')).2

/-- A turn of the loop that goes on. -/
theorem parseFilterLoop_some {fuel : Nat} {left tree : FilterNode} {pos next rest : List Char}
    {node : FilterNode → FilterNode → FilterNode}
    (connective : parseConnective (skipSpace pos) = some (node, next))
    (read : parseFilterLoop fuel left pos = some (tree, rest)) :
    ∃ less right after, fuel = less + 1 ∧ parseFilterExpr less next = some (right, after) ∧
      parseFilterLoop less (node left right) after = some (tree, rest) := by
  obtain _ | less := fuel
  · cases read
  · rw [parseFilterLoop, connective] at read
    dsimp only at read
    cases term : parseFilterExpr less next with
    | none =>
        rw [term] at read
        cases read
    | some found =>
        rw [term] at read
        exact ⟨less, found.1, found.2, rfl, term, read⟩

/-- A turn behind a connective that ends. -/
theorem wordFilterLoop_ends {fuel : Nat} {left tree : FilterNode} {pos next rest : List Char}
    {node : FilterNode → FilterNode → FilterNode}
    (connective : parseConnective (skipSpace pos) = some (node, next)) (ends : endsWord next = true)
    (read : wordFilterLoop (fuel + 1) left pos = some (tree, rest)) :
    ∃ right after, wordFilterExpr fuel next = some (right, after) ∧
      wordFilterLoop fuel (node left right) after = some (tree, rest) := by
  rw [wordFilterLoop, wordConnective_of_parse connective, if_pos ends] at read
  dsimp only at read
  cases term : wordFilterExpr fuel next with
  | none =>
      rw [term] at read
      cases read
  | some found =>
      rw [term] at read
      exact ⟨found.1, found.2, rfl, read⟩

/-- Where no letters are taken for a keyword further on the loop makes the same tree. -/
theorem wordFilterLoop_of_not_slips (fuel : Nat) : ∀ {left : FilterNode} {pos : List Char},
    pos.length < fuel →
    (∀ node next, parseConnective (skipSpace pos) = some (node, next) →
      endsWord next = true ∧ ¬ FilterSlips next) →
    wordFilterLoop fuel left pos = parseFilterLoop fuel left pos := by
  induction fuel with
  | zero => exact fun _ _ => rfl
  | succ fuel ih =>
      intro left pos enough steady
      rw [wordFilterLoop, parseFilterLoop]
      cases connective : parseConnective (skipSpace pos) with
      | none => simp only [wordConnective, connective]
      | some found =>
          obtain ⟨node, next⟩ := found
          obtain ⟨ends, none⟩ := steady node next connective
          have shorter := parseConnective_shorter connective
          have space := skipSpace_length_le pos
          rw [wordConnective_of_parse connective, if_pos ends]
          dsimp only
          rw [wordFilterExpr_of_not_slips fuel fun slips => none (.here slips)]
          cases term : parseFilterExpr fuel next with
          | none => rfl
          | some read =>
              obtain ⟨right, after⟩ := read
              have termRead := termRead_of_parse (by omega) term
              have inside := (parseFilterExpr_suffix fuel term).length_le
              refine ih (by omega) fun node' next' connective' => ⟨?_, fun slips => ?_⟩
              · apply Bool.of_not_eq_false
                exact fun glued => none (.connective termRead connective' glued)
              · exact none (.later termRead connective' slips)

/-- A connective that does not end there is none for whole keywords. -/
theorem glued_differs {fuel : Nat} {left tree : FilterNode} {pos next rest rest' : List Char}
    {node : FilterNode → FilterNode → FilterNode}
    (connective : parseConnective (skipSpace pos) = some (node, next))
    (glued : endsWord next = false) (read : parseFilterLoop fuel left pos = some (tree, rest)) :
    wordFilterLoop fuel left pos ≠ some (tree, rest') := by
  intro word
  obtain ⟨less, right, after, rfl, -, further⟩ := parseFilterLoop_some connective read
  have longer := parseFilterLoop_spine further
  rw [wordFilterLoop, wordConnective_of_parse connective, glued] at word
  obtain ⟨rfl, -⟩ := Prod.mk.inj (Option.some.inj word)
  rw [spine_connective connective] at longer
  have lengths := longer.length_le
  rw [List.length_append, List.length_singleton] at lengths
  omega

/-- Behind a connective the trees differ from the term on in which letters are taken for a
    keyword. -/
theorem FilterSlips.differs {next : List Char} (slips : FilterSlips next) :
    ∀ {fuel : Nat} {left tree : FilterNode} {pos rest rest' : List Char}
      {node : FilterNode → FilterNode → FilterNode}, pos.length < fuel →
      parseConnective (skipSpace pos) = some (node, next) → endsWord next = true →
      parseFilterLoop fuel left pos = some (tree, rest) →
      wordFilterLoop fuel left pos ≠ some (tree, rest') := by
  -- the term itself, and the loops behind it if whole keywords read it in the same way
  have term : ∀ {next : List Char} {fuel : Nat} {left tree : FilterNode}
      {pos rest rest' : List Char}
      {node : FilterNode → FilterNode → FilterNode}, pos.length < fuel →
      parseConnective (skipSpace pos) = some (node, next) → endsWord next = true →
      parseFilterLoop fuel left pos = some (tree, rest) →
      wordFilterLoop fuel left pos = some (tree, rest') →
      ¬ TermSlips next ∧ ∃ less right after, after.length < less ∧ TermRead next after ∧
        parseFilterLoop less (node left right) after = some (tree, rest) ∧
        wordFilterLoop less (node left right) after = some (tree, rest') := by
    intro next fuel left tree pos rest rest' node enough connective ends read word
    obtain ⟨less, right, after, rfl, isTerm, further⟩ := parseFilterLoop_some connective read
    obtain ⟨right', after', isWord, further'⟩ := wordFilterLoop_ends connective ends word
    have shorter := parseConnective_shorter connective
    have space := skipSpace_length_le pos
    have inside := (parseFilterExpr_suffix less isTerm).length_le
    have steady : ¬ TermSlips next := by
      intro slips
      have first := parseFilterLoop_spine further
      have second := wordFilterLoop_spine further'
      rw [spine_connective connective] at first second
      refine spine_ne first second ?_ rfl
      rintro rfl
      exact slips.differs isTerm isWord
    rw [wordFilterExpr_of_not_slips less steady, isTerm] at isWord
    obtain ⟨rfl, rfl⟩ := Prod.mk.inj (Option.some.inj isWord)
    exact ⟨steady, less, right, after, by omega, termRead_of_parse (by omega) isTerm, further,
      further'⟩
  induction slips with
  | here slips =>
      intro fuel left tree pos rest rest' node enough connective ends read word
      exact (term enough connective ends read word).1 slips
  | connective isTerm behind glued =>
      intro fuel left tree pos rest rest' node enough connective ends read word
      obtain ⟨-, less, right, after, -, isTerm', further, further'⟩ :=
        term enough connective ends read word
      obtain rfl := isTerm.unique isTerm'
      exact glued_differs behind glued further further'
  | @later next after next' node' isTerm behind slips ih =>
      intro fuel left tree pos rest rest' node enough connective ends read word
      obtain ⟨-, less, right, after, enough', isTerm', further, further'⟩ :=
        term enough connective ends read word
      obtain rfl := isTerm.unique isTerm'
      cases ends' : endsWord next' with
      | true => exact ih enough' behind ends' further further'
      | false => exact glued_differs behind ends' further further'

/-! ## Whole texts -/

/-- A filter that is made of a text is the one that whole keywords make. -/
def KeepsWords (text : List Char) : Prop :=
  ∀ filter, nblexFilterNew text = some filter → wordFilterNew text = some filter

theorem nblexFilterNew_some {text : List Char} {filter : FilterNode}
    (made : nblexFilterNew text = some filter) :
    ∃ left after rest, parseFilterExpr (text.length + 1) text = some (left, after) ∧
      parseFilterLoop (text.length + 1) left after = some (filter, rest) := by
  rw [nblexFilterNew, parseFilterFull] at made
  cases term : parseFilterExpr (text.length + 1) text with
  | none =>
      rw [term] at made
      cases made
  | some read =>
      rw [term] at made
      obtain ⟨⟨tree, rest⟩, loop, rfl⟩ := Option.map_eq_some_iff.mp made
      exact ⟨read.1, read.2, rest, rfl, loop⟩

theorem wordFilterNew_some {text : List Char} {filter : FilterNode}
    (made : wordFilterNew text = some filter) :
    ∃ left after rest, wordFilterExpr (text.length + 1) text = some (left, after) ∧
      wordFilterLoop (text.length + 1) left after = some (filter, rest) := by
  rw [wordFilterNew] at made
  cases term : wordFilterExpr (text.length + 1) text with
  | none =>
      rw [term] at made
      cases made
  | some read =>
      rw [term] at made
      obtain ⟨⟨tree, rest⟩, loop, rfl⟩ := Option.map_eq_some_iff.mp made
      exact ⟨read.1, read.2, rest, rfl, loop⟩

/-- On the texts of which a filter is made, whole keywords make the same filter exactly where no
    letters are taken for a keyword. -/
theorem keepsWords_iff (text : List Char) :
    KeepsWords text ↔ RejectedFilter text ∨ ¬ FilterSlips text := by
  constructor
  · intro keeps
    rw [← nblexFilterNew_none_iff]
    cases made : nblexFilterNew text with
    | none => exact Or.inl rfl
    | some filter =>
        refine Or.inr fun slips => ?_
        obtain ⟨left, after, rest, isTerm, loop⟩ := nblexFilterNew_some made
        obtain ⟨left', after', rest', isWord, loop'⟩ := wordFilterNew_some (keeps filter made)
        have inside := (parseFilterExpr_suffix _ isTerm).length_le
        -- both readings begin with the same term, which does not slip
        have first := parseFilterLoop_spine loop
        have second := wordFilterLoop_spine loop'
        rw [parseFilterExpr_spine isTerm] at first
        rw [wordFilterExpr_spine isWord] at second
        have sameTerm : left = left' := by
          by_contra different
          exact @spine_ne [] left left' filter filter first second different rfl
        subst sameTerm
        have steady : ¬ TermSlips text := fun slips => slips.differs isTerm isWord
        rw [wordFilterExpr_of_not_slips _ steady, isTerm] at isWord
        obtain ⟨-, rfl⟩ := Prod.mk.inj (Option.some.inj isWord)
        have isTerm' := termRead_of_parse (Nat.lt_succ_self _) isTerm
        cases slips with
        | here slips => exact steady slips
        | connective term behind glued =>
            obtain rfl := term.unique isTerm'
            exact glued_differs behind glued loop loop'
        | @later _ _ next node term behind slips =>
            obtain rfl := term.unique isTerm'
            cases ends : endsWord next with
            | true => exact slips.differs (by omega) behind ends loop loop'
            | false => exact glued_differs behind ends loop loop'
  · rintro (rejected | steady) filter made
    · rw [(nblexFilterNew_none_iff text).mpr rejected] at made
      cases made
    · obtain ⟨left, after, rest, isTerm, loop⟩ := nblexFilterNew_some made
      have inside := (parseFilterExpr_suffix _ isTerm).length_le
      have isTerm' := termRead_of_parse (Nat.lt_succ_self _) isTerm
      have sameLoop : wordFilterLoop (text.length + 1) left after =
          parseFilterLoop (text.length + 1) left after := by
        refine wordFilterLoop_of_not_slips _ (by omega)
          fun node next connective => ⟨?_, fun slips => ?_⟩
        · apply Bool.of_not_eq_false
          exact fun glued => steady (.connective isTerm' connective glued)
        · exact steady (.later isTerm' connective slips)
      rw [wordFilterNew, wordFilterExpr_of_not_slips _ fun slips => steady (.here slips), isTerm]
      dsimp only
      rw [sameLoop, loop]
      rfl

end Loops

/-! ## Names that begin like keywords -/

section Names

variable [Pcre2] {name : List Char} {op : FilterOp} {literal : FilterLiteral}

/-- The comparison on its own, behind a `NOT`, and behind a connective that follows on another
    comparison, is one of the field with the whole name. -/
structure ParsedWhole (name : List Char) (op : FilterOp) (literal : FilterLiteral) : Prop where
  alone : nblexFilterNew (comparisonText name op literal.text) =
    some (.expr ⟨String.ofList name, op, literal.value, none⟩)
  behindNot : nblexFilterNew ('N' :: 'O' :: 'T' :: ' ' :: comparisonText name op literal.text) =
    some (.not (.expr ⟨String.ofList name, op, literal.value, none⟩))
  behind : ∀ (c : Connective) (first : FilterAtom), (notPrefix first.field).2 ≠ [] →
    ∃ left, nblexFilterNew
      (first.text ++ ' ' :: (c.text ++ ' ' :: comparisonText name op literal.text)) =
        some (c.node left (.expr ⟨String.ofList name, op, literal.value, none⟩))

/-- A name without a `NOT` in front is read whole. -/
theorem parseFilterExpr_wholeName (nonempty : name ≠ []) (chars : ∀ c ∈ name, isFieldChar c = true)
    (plainName : atNot name = false) (plain : literal.Plain) {fuel : Nat}
    (enough : name.length < fuel) :
    parseFilterExpr fuel (comparisonText name op literal.text) =
      some (.expr ⟨String.ofList name, op, literal.value, none⟩, []) := by
  have reads := plain.readsAs
  have noNot : notPrefix name = (0, name) := notPrefix_plain plainName
  have term := parseFilterExpr_comparisonText chars (by rw [noNot]; exact nonempty) reads.visible
    (reads.reads op) enough
  rw [noNot] at term
  exact term

/-- A comparison is parsed with its whole name in every place exactly when the name does not begin
    like a `NOT`. -/
theorem parsedWhole_iff (nonempty : name ≠ []) (chars : ∀ c ∈ name, isFieldChar c = true)
    (plain : literal.Plain) : ParsedWhole name op literal ↔ atNot name = false := by
  constructor
  · intro whole
    apply Bool.eq_false_iff.mpr
    intro negates
    obtain ⟨left, after, rest, term, loop⟩ := nblexFilterNew_some whole.alone
    have start : skipSpace (comparisonText name op literal.text) =
        comparisonText name op literal.text := by
      cases name with
      | nil => exact absurd rfl nonempty
      | cons c name =>
          exact skipSpace_of_head _ (fieldChar_plain (chars c List.mem_cons_self)).1
    have negation : atNot (skipSpace (comparisonText name op literal.text)) = true := by
      rw [start]
      exact (atNot_stop (comparisonText_stop op literal.text)).trans negates
    rw [parseFilterExpr_noParen _ (noParen_of_negation negation), if_pos negation] at term
    obtain ⟨operand, -, same⟩ := Option.map_eq_some_iff.mp term
    obtain ⟨rfl, -⟩ := Prod.mk.inj same
    have first := (parseFilterLoop_spine loop).eq_of_length rfl
    cases first
  · intro plainName
    have term : ∀ fuel, name.length < fuel →
        parseFilterExpr fuel (comparisonText name op literal.text) =
          some (.expr ⟨String.ofList name, op, literal.value, none⟩, []) :=
      fun fuel enough => parseFilterExpr_wholeName nonempty chars plainName plain enough
    have length := comparisonText_length name op literal.text
    refine ⟨?_, ?_, fun c first named => ?_⟩
    · rw [nblexFilterNew, parseFilterFull, term _ length]
      rfl
    · have negation : parseFilterExpr
          (('N' :: 'O' :: 'T' :: ' ' :: comparisonText name op literal.text).length + 1)
          ('N' :: 'O' :: 'T' :: ' ' :: comparisonText name op literal.text) =
            some (.not (.expr ⟨String.ofList name, op, literal.value, none⟩), []) := by
        have atKeyword : atNot ('N' :: 'O' :: 'T' :: ' ' :: comparisonText name op literal.text) =
            true := rfl
        rw [parseFilterExpr_word _ _ (by decide) (by decide), if_pos atKeyword]
        simp only [List.drop_succ_cons, List.drop_zero]
        rw [parseFilterExpr_blank, term _ (by simp only [List.length_cons]; omega)]
        rfl
      rw [nblexFilterNew, parseFilterFull, negation]
      rfl
    · let later := ' ' :: (c.text ++ ' ' :: comparisonText name op literal.text)
      obtain ⟨left, isNode⟩ : ∃ left, first.node later = some left := ⟨_, if_neg named⟩
      refine ⟨left, ?_⟩
      have firstTerm := parseFilterExpr_atom first (Or.inr ⟨_, Or.inl rfl⟩ : Stops later)
        (Nat.lt_succ_of_lt (first.field_lt later))
      rw [isNode, Option.map_some] at firstTerm
      have enough : name.length < (first.text ++ later).length := by
        simp only [later, comparisonText, List.length_append, List.length_cons]
        omega
      rw [nblexFilterNew, parseFilterFull, firstTerm]
      dsimp only
      rw [parseFilterLoop_connective, term _ enough, Option.bind_some]
      obtain ⟨less, isLess⟩ :=
        Nat.exists_eq_succ_of_ne_zero (Nat.ne_of_gt (Nat.zero_lt_of_lt enough))
      rw [isLess]
      rfl

/-- Keywords are whole words for a comparison exactly when its name does not begin like a `NOT`; and
    in any text exactly when a term is missing in it, so that there is no filter, or no letters are
    taken for a keyword that do not end there. -/
theorem filterKeywords_iff :
    (∀ (name : List Char) (op : FilterOp) (literal : FilterLiteral), name ≠ [] →
      (∀ c ∈ name, isFieldChar c = true) → literal.Plain →
      (ParsedWhole name op literal ↔ atNot name = false)) ∧
    ∀ text : List Char, KeepsWords text ↔ RejectedFilter text ∨ ¬ FilterSlips text :=
  ⟨fun _ _ _ nonempty chars plain => parsedWhole_iff nonempty chars plain, keepsWords_iff⟩

end Names

/-- `notes == 1` is no comparison of the field `notes`. -/
theorem notes_not_parsedWhole :
    ¬ @ParsedWhole literalPcre2 "notes".toList .eq (.integer false ['1']) := by
  intro whole
  have plainName := (@parsedWhole_iff literalPcre2 _ _ _ (by simp)
    (by simp [isFieldChar, isalnum])
    (by simp [FilterLiteral.Plain, Digits, isdigit, integerValue, signed, decimalValue])).mp whole
  simp [atNot, startsWith] at plainName

/-- `android` begins like `and`, which no term does. -/
theorem android_parsedWhole :
    @ParsedWhole literalPcre2 "android".toList .contains (.string "in".toList) :=
  ((@filterKeywords_iff literalPcre2).1 "android".toList .contains (.string "in".toList) (by simp)
    (by simp [isFieldChar, isalnum]) (by simp [FilterLiteral.Plain])).mpr
      (by simp [atNot, startsWith, List.isPrefixOf])

end Nblex
