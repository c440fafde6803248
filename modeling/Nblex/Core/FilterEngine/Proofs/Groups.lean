import Nblex.Core.FilterEngine.Proofs.Chains

/-!
# Parentheses

Expressions with parentheses around every compound operand. A parenthesis is followed by a call of
`parse_filter_expr`, which reads one term: the filter of an expression is the left-to-right reading
of the comparisons in the text, up to the first parenthesis that closes a group with a connective.
-/

namespace Nblex

open BoolExpr

/-! ## Texts -/

section Texts

variable {α : Type}

/-- The text after the body of an operand that is written in front of `later`. -/
def closeLater (e : BoolExpr α) (later : List Char) : List Char :=
  match e with
  | .atom _ => later
  | _ => ')' :: later

/-- An operand in front of `later`: a compound one stands in parentheses. -/
def enclosed (e : BoolExpr α) (body : List Char → List Char) (later : List Char) : List Char :=
  match e with
  | .atom _ => body later
  | _ => '(' :: body (')' :: later)

/-- Where the parser is after an operand, given where it is after the term its body starts with. -/
def closed (e : BoolExpr α) (pos : List Char) : List Char :=
  match e with
  | .atom _ => pos
  | _ => skipClose (skipSpace pos)

end Texts

/-- The text of an expression in front of `later`. -/
def exprBody : BoolExpr FilterAtom → List Char → List Char
  | .atom a, later => a.text ++ later
  | .not e, later => 'N' :: 'O' :: 'T' :: ' ' :: enclosed e (exprBody e) later
  | .bin c l r, later =>
      enclosed l (exprBody l) (' ' :: (c.text ++ ' ' :: enclosed r (exprBody r) later))

/-- The text of an expression. -/
def exprText (e : BoolExpr FilterAtom) : List Char := exprBody e []

/-- The text after the first operand of a connective. -/
def connectiveText (c : Connective) (r : BoolExpr FilterAtom) (later : List Char) : List Char :=
  ' ' :: (c.text ++ ' ' :: enclosed r (exprBody r) later)

/-- Each comparison of an expression with the text that follows it. -/
def situate : BoolExpr FilterAtom → List Char → BoolExpr (FilterAtom × List Char)
  | .atom a, later => .atom (a, later)
  | .not e, later => .not (situate e (closeLater e later))
  | .bin c l r, later =>
      .bin c (situate l (closeLater l (connectiveText c r later)))
        (situate r (closeLater r later))

/-! ## What the text should mean -/

section Meaning

variable [Pcre2]

/-- `nblex_filter_matches` on what `nblex_filter_new` makes of a text; a `NULL` filter matches
    nothing. -/
def matchesText (text : List Char) (event : Event) : Bool := (filterResult text event).getD false

/-- The text of an expression is accepted and means the expression over what its comparisons mean
    alone. An event without data, which no filter matches, is left out where the expression holds
    when its comparisons do not. -/
def GroupedMeets (e : BoolExpr FilterAtom) : Prop :=
  nblexFilterNew (exprText e) ≠ none ∧
    ∀ event, (event.data = none → e.value (fun _ => false) = false) →
      matchesText (exprText e) event = e.value (fun a => matchesText a.text event)

end Meaning

/-- No comparison is followed by a dot it is sensitive to. -/
def DotFreeLeaves (e : BoolExpr FilterAtom) : Prop :=
  ∀ leaf ∈ (situate e []).leaves, DotFree leaf.1 leaf.2

/-- No name is made of `NOT`s only. -/
def NamedLeaves (e : BoolExpr FilterAtom) : Prop :=
  ∀ a ∈ e.leaves, (notPrefix a.field).2 ≠ []

/-! ## The parser on an expression -/

/-- The node of a comparison under its `NOT`s. -/
def unitNode (u : Nat × (FilterAtom × List Char)) : Option FilterNode :=
  (u.2.1.node u.2.2).map (negated u.1)

/-- The tree of the rest of a chain. -/
def restNode (left : FilterNode) :
    List (Connective × (Nat × (FilterAtom × List Char))) → Option FilterNode
  | [] => some left
  | (c, u) :: rest => (unitNode u).bind (fun right => restNode (c.node left right) rest)

/-- The tree of a chain. -/
def chainTree (chain : Chain (FilterAtom × List Char)) : Option FilterNode :=
  (unitNode chain.first).bind (fun left => restNode left chain.rest)

/-- Where the parser is after the first term of an expression. -/
def firstRest : BoolExpr FilterAtom → List Char → List Char
  | .atom _, later => later
  | .not e, later => closed e (firstRest e (closeLater e later))
  | .bin c l r, later => closed l (firstRest l (closeLater l (connectiveText c r later)))

theorem map_situate (e : BoolExpr FilterAtom) (later : List Char) :
    (situate e later).map Prod.fst = e := by
  induction e generalizing later with
  | atom a => rfl
  | not e ih => exact congrArg BoolExpr.not (ih _)
  | bin c l r ihl ihr => rw [situate, BoolExpr.map, ihl, ihr]

theorem leaves_situate {e : BoolExpr FilterAtom} {later : List Char}
    {leaf : FilterAtom × List Char} (member : leaf ∈ (situate e later).leaves) :
    leaf.1 ∈ e.leaves := by
  rw [← map_situate e later, leaves_map]
  exact List.mem_map_of_mem member

theorem isUnit_situate (e : BoolExpr FilterAtom) (later : List Char) :
    (situate e later).isUnit = e.isUnit := by
  rw [← isUnit_map Prod.fst, map_situate]

theorem closeLater_stops {α : Type} (e : BoolExpr α) {later : List Char} (stops : Stops later) :
    Stops (closeLater e later) := by
  cases e with
  | atom a => exact stops
  | not e => exact Or.inr ⟨later, Or.inr rfl⟩
  | bin c l r => exact Or.inr ⟨later, Or.inr rfl⟩

theorem connectiveText_stops (c : Connective) (r : BoolExpr FilterAtom) (later : List Char) :
    Stops (connectiveText c r later) := Or.inr ⟨_, Or.inl rfl⟩

theorem situate_stops (e : BoolExpr FilterAtom) {later : List Char} (stops : Stops later) :
    ∀ leaf ∈ (situate e later).leaves, Stops leaf.2 := by
  induction e generalizing later with
  | atom a =>
      intro leaf member
      rw [List.mem_singleton.mp member]
      exact stops
  | not e ih => exact ih (closeLater_stops e stops)
  | bin c l r ihl ihr =>
      intro leaf member
      rcases List.mem_append.mp member with left | right
      · exact ihl (closeLater_stops l (connectiveText_stops c r later)) leaf left
      · exact ihr (closeLater_stops r stops) leaf right

/-- The end of the text or of a group. -/
def Closes (later : List Char) : Prop := later = [] ∨ ∃ rest, later = ')' :: rest

theorem Closes.stops {later : List Char} (closes : Closes later) : Stops later := by
  rcases closes with rfl | ⟨rest, rfl⟩
  · exact Or.inl rfl
  · exact Or.inr ⟨rest, Or.inr rfl⟩

theorem closeLater_closes {e : BoolExpr FilterAtom} (group : e.isUnit ≠ true)
    (later : List Char) : Closes (closeLater e later) := by
  cases e with
  | atom a => exact absurd rfl group
  | not e => exact Or.inr ⟨later, rfl⟩
  | bin c l r => exact Or.inr ⟨later, rfl⟩

theorem skipClose_length_le (pos : List Char) : (skipClose pos).length ≤ pos.length := by
  unfold skipClose
  split
  · exact Nat.le_succ _
  · exact le_refl _

theorem closed_length_le {α : Type} (e : BoolExpr α) (pos : List Char) :
    (closed e pos).length ≤ pos.length := by
  cases e with
  | atom a => exact le_refl _
  | not e => exact le_trans (skipClose_length_le _) (skipSpace_length_le _)
  | bin c l r => exact le_trans (skipClose_length_le _) (skipSpace_length_le _)

theorem enclosed_length {α : Type} (e : BoolExpr α) (body : List Char → List Char)
    (later : List Char) :
    (body (closeLater e later)).length ≤ (enclosed e body later).length := by
  cases e with
  | atom a => exact le_refl _
  | not e => exact Nat.le_succ _
  | bin c l r => exact Nat.le_succ _

theorem exprBody_pos (e : BoolExpr FilterAtom) (later : List Char) :
    0 < (exprBody e later).length := by
  induction e generalizing later with
  | atom a => exact Nat.zero_lt_of_lt (a.field_lt later)
  | not e ih => exact Nat.zero_lt_succ _
  | bin c l r ihl ihr => exact lt_of_lt_of_le (ihl _) (enclosed_length l (exprBody l) _)

theorem firstRest_length (e : BoolExpr FilterAtom) (later : List Char) :
    (firstRest e later).length ≤ (exprBody e later).length := by
  induction e generalizing later with
  | atom a =>
      rw [firstRest, exprBody, List.length_append]
      exact Nat.le_add_left _ _
  | not e ih =>
      have inner := le_trans (ih (closeLater e later)) (enclosed_length e (exprBody e) later)
      have outer := closed_length_le e (firstRest e (closeLater e later))
      simp only [firstRest, exprBody, List.length_cons]
      omega
  | bin c l r ihl ihr =>
      have inner := le_trans (ihl (closeLater l (connectiveText c r later)))
        (enclosed_length l (exprBody l) (connectiveText c r later))
      exact le_trans (closed_length_le l _) inner

/-- After a comparison under `NOT`s the parser is where the comparison ends, with all parentheses
    closed. -/
theorem firstRest_unit {e : BoolExpr FilterAtom} (unit : e.isUnit = true) (later : List Char) :
    firstRest e later = later := by
  induction e generalizing later with
  | atom a => rfl
  | not e ih =>
      rw [firstRest, ih unit]
      cases e with
      | atom a => rfl
      | not e => rfl
      | bin c l r => cases unit
  | bin c l r ihl ihr => cases unit

theorem closed_unit {e : BoolExpr FilterAtom} (unit : e.isUnit = true) (later : List Char) :
    closed e (closeLater e later) = later := by
  cases e with
  | atom a => rfl
  | not e => rfl
  | bin c l r => cases unit

theorem skipSpace_connective (c : Connective) (tail : List Char) :
    skipSpace (c.text ++ tail) = c.text ++ tail := by
  cases c with
  | and => rfl
  | or => rfl

/-- No parenthesis is closed in front of a connective. -/
theorem closed_group {e : BoolExpr FilterAtom} (group : e.isUnit ≠ true) {pos tail : List Char}
    {c : Connective} (next : skipSpace pos = c.text ++ tail) :
    closed e pos = c.text ++ tail := by
  have noClose : skipClose (skipSpace pos) = c.text ++ tail := by
    rw [next]
    cases c with
    | and => rfl
    | or => rfl
  cases e with
  | atom a => exact absurd rfl group
  | not e => exact noClose
  | bin c' l r => exact noClose

/-- What the parser reads next, up to blanks, after the first term of a group with a connective. -/
theorem firstRest_group {e : BoolExpr FilterAtom} (group : e.isUnit ≠ true) (later : List Char) :
    ∃ (c : Connective) (tail : List Char), skipSpace (firstRest e later) = c.text ++ tail := by
  induction e generalizing later with
  | atom a => exact absurd rfl group
  | not e ih =>
      obtain ⟨c, tail, next⟩ := ih group (closeLater e later)
      have inner : e.isUnit ≠ true := group
      refine ⟨c, tail, ?_⟩
      rw [firstRest, closed_group inner next, skipSpace_connective]
  | bin c l r ihl ihr =>
      by_cases unit : l.isUnit = true
      · refine ⟨c, ' ' :: enclosed r (exprBody r) later, ?_⟩
        rw [firstRest, firstRest_unit unit, closed_unit unit, connectiveText, skipSpace_blank,
          skipSpace_connective]
      · obtain ⟨c', tail, next⟩ := ihl unit (closeLater l (connectiveText c r later))
        refine ⟨c', tail, ?_⟩
        rw [firstRest, closed_group unit next, skipSpace_connective]

/-- The closing parenthesis after a group is not read with its first term. -/
theorem skipSpace_closed_group {e : BoolExpr FilterAtom} (group : e.isUnit ≠ true)
    (later : List Char) :
    skipSpace (closed e (firstRest e later)) = skipSpace (firstRest e later) := by
  obtain ⟨c, tail, next⟩ := firstRest_group group later
  rw [closed_group group next, next, skipSpace_connective]

theorem unitNode_negate (u : Nat × (FilterAtom × List Char)) :
    unitNode (u.1 + 1, u.2) = (unitNode u).map FilterNode.not := by
  rw [unitNode, unitNode, Option.map_map]
  rfl

theorem kept_situate_bin (c : Connective) (l r : BoolExpr FilterAtom) (later : List Char) :
    (situate (.bin c l r) later).kept.first =
      (situate l (closeLater l (connectiveText c r later))).kept.first := by
  rw [situate, kept]
  split
  · rfl
  · rfl

section Terms

variable [Pcre2]

theorem parseFilterExpr_not (fuel : Nat) (rest : List Char) :
    parseFilterExpr (fuel + 1) ('N' :: 'O' :: 'T' :: ' ' :: rest) =
      (parseFilterExpr fuel rest).map (fun read => (.not read.1, read.2)) := by
  have negates : atNot ('N' :: 'O' :: 'T' :: ' ' :: rest) = true := rfl
  rw [parseFilterExpr_word fuel _ (by decide) (by decide), if_pos negates,
    ← parseFilterExpr_blank fuel rest]
  rfl

/-- An operand is read as the term its body starts with. -/
theorem parseFilterExpr_enclosed {e : BoolExpr FilterAtom} {read : Option FilterNode}
    {later : List Char}
    (body : ∀ fuel, (exprBody e (closeLater e later)).length < fuel →
      parseFilterExpr fuel (exprBody e (closeLater e later)) =
        read.map (fun node => (node, firstRest e (closeLater e later))))
    {fuel : Nat} (enough : (enclosed e (exprBody e) later).length < fuel) :
    parseFilterExpr fuel (enclosed e (exprBody e) later) =
      read.map (fun node => (node, closed e (firstRest e (closeLater e later)))) := by
  have group : ∀ fuel, (exprBody e (')' :: later)).length < fuel →
      closeLater e later = ')' :: later →
      parseFilterExpr (fuel + 1) ('(' :: exprBody e (')' :: later)) =
        read.map (fun node => (node, skipClose (skipSpace (firstRest e (')' :: later))))) := by
    intro fuel enough same
    rw [← same] at enough
    have isOpen : skipSpace ('(' :: exprBody e (')' :: later)) = '(' :: exprBody e (')' :: later) :=
      skipSpace_of_head _ (by decide)
    rw [parseFilterExpr_paren fuel isOpen, ← same, body fuel enough, Option.map_map]
    rfl
  cases e with
  | atom a => exact body fuel enough
  | not e =>
      obtain ⟨fuel, rfl⟩ := Nat.exists_eq_succ_of_ne_zero (Nat.ne_of_gt (Nat.zero_lt_of_lt enough))
      exact group fuel (Nat.lt_of_succ_lt_succ enough) rfl
  | bin c l r =>
      obtain ⟨fuel, rfl⟩ := Nat.exists_eq_succ_of_ne_zero (Nat.ne_of_gt (Nat.zero_lt_of_lt enough))
      exact group fuel (Nat.lt_of_succ_lt_succ enough) rfl

/-- The parser reads the first comparison of an expression as a term. -/
theorem parseFilterExpr_body (e : BoolExpr FilterAtom) :
    ∀ {later : List Char}, Stops later → ∀ fuel, (exprBody e later).length < fuel →
      parseFilterExpr fuel (exprBody e later) =
        (unitNode (situate e later).kept.first).map (fun node => (node, firstRest e later)) := by
  induction e with
  | atom a =>
      intro later stops fuel enough
      rw [exprBody, parseFilterExpr_atom a stops (lt_trans (a.field_lt later) enough)]
      show _ = ((a.node later).map (negated 0)).map _
      rw [Option.map_map]
      rfl
  | not e ih =>
      intro later stops fuel enough
      obtain ⟨fuel, rfl⟩ := Nat.exists_eq_succ_of_ne_zero (Nat.ne_of_gt (Nat.zero_lt_of_lt enough))
      have enough' : (enclosed e (exprBody e) later).length < fuel := by
        simp only [exprBody, List.length_cons] at enough
        omega
      rw [exprBody, parseFilterExpr_not,
        parseFilterExpr_enclosed (ih (closeLater_stops e stops)) enough', situate, kept]
      show _ = (unitNode (_ + 1, _)).map _
      rw [unitNode_negate, Option.map_map, Option.map_map]
      rfl
  | bin c l r ihl ihr =>
      intro later stops fuel enough
      have first := parseFilterExpr_enclosed
        (ihl (closeLater_stops l (connectiveText_stops c r later))) enough
      rw [kept_situate_bin]
      exact first

/-! ## The loop on the rest of an expression -/

/-- The loop from a position, up to the blanks there. -/
theorem parseFilterLoop_congr (fuel : Nat) (left : FilterNode) {pos pos' : List Char}
    (same : skipSpace pos = skipSpace pos') :
    parseFilterLoop fuel left pos = parseFilterLoop fuel left pos' := by
  cases fuel with
  | zero => rfl
  | succ fuel => rw [parseFilterLoop, parseFilterLoop, same]

/-- The loop ends where a group is closed. -/
theorem parseFilterLoop_closes {fuel : Nat} (enough : 0 < fuel) (left : FilterNode)
    {later : List Char} (closes : Closes later) :
    parseFilterLoop fuel left later = some (left, later) := by
  obtain ⟨fuel, rfl⟩ := Nat.exists_eq_succ_of_ne_zero (Nat.ne_of_gt enough)
  rcases closes with rfl | ⟨rest, rfl⟩
  · rfl
  · rfl

/-- One turn of the loop. -/
theorem parseFilterLoop_connective (fuel : Nat) (left : FilterNode) (c : Connective)
    (rest : List Char) :
    parseFilterLoop (fuel + 1) left (' ' :: (c.text ++ ' ' :: rest)) =
      (parseFilterExpr fuel rest).bind
        (fun read => parseFilterLoop fuel (c.node left read.1) read.2) := by
  rw [parseFilterLoop, parseConnective_text]
  dsimp only
  rw [parseFilterExpr_blank]
  cases parseFilterExpr fuel rest with
  | none => rfl
  | some read => rfl

/-- The tree the loop ends with, wherever it ends. -/
def LoopGives (fuel : Nat) (left : FilterNode) (pos : List Char) (tree : Option FilterNode) :
    Prop :=
  ∃ stop, parseFilterLoop fuel left pos = tree.map (fun node => (node, stop))

/-- The loop after an operand: in a group it goes on where the first term ended. -/
theorem loopGives_closed {e : BoolExpr FilterAtom} {fuel : Nat} (left : FilterNode)
    {later : List Char}
    (inside : e.isUnit ≠ true → LoopGives fuel left (firstRest e (closeLater e later))
      (restNode left (situate e (closeLater e later)).kept.rest))
    (outside : e.isUnit = true → Closes later) (enough : 0 < fuel) :
    LoopGives fuel left (closed e (firstRest e (closeLater e later)))
      (restNode left (situate e (closeLater e later)).kept.rest) := by
  by_cases unit : e.isUnit = true
  · have noRest := (kept_unit ((isUnit_situate e (closeLater e later)).trans unit)).1
    refine ⟨later, ?_⟩
    rw [firstRest_unit unit, closed_unit unit, noRest,
      parseFilterLoop_closes enough left (outside unit)]
    rfl
  · obtain ⟨stop, gives⟩ := inside unit
    refine ⟨stop, ?_⟩
    rw [parseFilterLoop_congr fuel left (skipSpace_closed_group unit _), gives]

/-- The loop after the first term of an expression. -/
theorem loopGives_rest (e : BoolExpr FilterAtom) :
    ∀ {later : List Char}, Closes later → ∀ fuel left, (exprBody e later).length ≤ fuel →
      LoopGives fuel left (firstRest e later) (restNode left (situate e later).kept.rest) := by
  induction e with
  | atom a =>
      intro later closes fuel left enough
      have pos : 0 < fuel := lt_of_lt_of_le (Nat.zero_lt_of_lt (a.field_lt later)) enough
      exact ⟨later, parseFilterLoop_closes pos left closes⟩
  | not e ih =>
      intro later closes fuel left enough
      have body := enclosed_length e (exprBody e) later
      simp only [exprBody, List.length_cons] at enough
      apply loopGives_closed left
      · intro group
        exact ih (closeLater_closes group later) fuel left (by omega)
      · intro unit
        exact closes
      · omega
  | bin c l r ihl ihr =>
      intro later closes fuel left enough
      have bodyL := enclosed_length l (exprBody l) (connectiveText c r later)
      have textL : (enclosed l (exprBody l) (connectiveText c r later)).length ≤ fuel := enough
      by_cases unit : l.isUnit = true
      · have restL := firstRest_length l (closeLater l (connectiveText c r later))
        have outer := closed_length_le l (closeLater l (connectiveText c r later))
        rw [firstRest_unit unit] at restL
        rw [closed_unit unit] at outer
        have long : (enclosed r (exprBody r) later).length + 4 ≤
            (connectiveText c r later).length := by
          cases c with
          | and => simp [connectiveText, Connective.text]
          | or => simp [connectiveText, Connective.text]
        have bodyR := enclosed_length r (exprBody r) later
        have positive : fuel ≠ 0 := by omega
        obtain ⟨fuel, rfl⟩ := Nat.exists_eq_succ_of_ne_zero positive
        have longR : (enclosed r (exprBody r) later).length < fuel := by omega
        have unit' := (isUnit_situate l (closeLater l (connectiveText c r later))).trans unit
        rw [firstRest, firstRest_unit unit, closed_unit unit, situate, kept_bin_unit unit',
          restNode, LoopGives, connectiveText, parseFilterLoop_connective,
          parseFilterExpr_enclosed (parseFilterExpr_body r (closeLater_stops r closes.stops)) longR]
        cases unitNode (situate r (closeLater r later)).kept.first with
        | none => exact ⟨[], rfl⟩
        | some right =>
            apply loopGives_closed (c.node left right)
            · intro group
              exact ihr (closeLater_closes group later) fuel _ (by omega)
            · intro unitR
              exact closes
            · omega
      · have unit' : (situate l (closeLater l (connectiveText c r later))).isUnit ≠ true := by
          rw [isUnit_situate]
          exact unit
        rw [firstRest, situate, kept_bin_group unit']
        apply loopGives_closed left
        · intro group
          exact ihl (closeLater_closes group _) fuel left (by omega)
        · intro isUnit
          exact absurd isUnit unit
        · exact lt_of_lt_of_le (exprBody_pos l _) (le_trans bodyL textL)

/-- The filter of the text of an expression: its left-to-right reading up to the first parenthesis
    that closes a group with a connective. -/
theorem nblexFilterNew_exprText (e : BoolExpr FilterAtom) :
    nblexFilterNew (exprText e) = chainTree (situate e []).kept := by
  have stops : Stops [] := Or.inl rfl
  have term := parseFilterExpr_body e stops ((exprText e).length + 1) (Nat.lt_succ_self _)
  rw [nblexFilterNew, parseFilterFull, chainTree]
  rw [← exprText] at term
  rw [term]
  cases unitNode (situate e []).kept.first with
  | none => rfl
  | some left =>
      have closes : Closes [] := Or.inl rfl
      obtain ⟨stop, gives⟩ := loopGives_rest e closes ((exprText e).length + 1) left
        (Nat.le_succ _)
      simp only [Option.map_some, Option.bind_some]
      rw [gives]
      cases restNode left (situate e []).kept.rest with
      | none => rfl
      | some tree => rfl

end Terms

/-! ## The value of the filter -/

section Value

variable [Pcre2]

/-- What a comparison gives on data where it is read in front of a text. -/
def leafValue (data : Json) (leaf : FilterAtom × List Char) : Bool :=
  ((leaf.1.node leaf.2).map (fun node => evaluateFilterNode node data)).getD false

theorem evaluate_negated (n : Nat) (node : FilterNode) (data : Json)
    (leaf : FilterAtom × List Char) (same : leafValue data leaf = evaluateFilterNode node data) :
    evaluateFilterNode (negated n node) data = unitValue (leafValue data) (n, leaf) := by
  induction n with
  | zero => exact same.symm
  | succ n ih => exact congrArg (!·) ih

/-- The tree of a chain of named comparisons has the value of the chain. -/
theorem unitNode_value {u : Nat × (FilterAtom × List Char)}
    (named : (notPrefix u.2.1.field).2 ≠ []) :
    ∃ node, unitNode u = some node ∧
      ∀ data, evaluateFilterNode node data = unitValue (leafValue data) u := by
  obtain ⟨n, a, later⟩ := u
  have isNode : ∃ node, a.node later = some node := ⟨_, if_neg named⟩
  obtain ⟨node, isNode⟩ := isNode
  refine ⟨negated n node, ?_, ?_⟩
  · rw [unitNode, isNode]
    rfl
  · intro data
    apply evaluate_negated
    rw [leafValue, isNode]
    rfl

theorem evaluate_node (c : Connective) (left right : FilterNode) (data : Json) :
    evaluateFilterNode (c.node left right) data =
      c.apply (evaluateFilterNode left data) (evaluateFilterNode right data) := by
  cases c with
  | and => rfl
  | or => rfl

theorem restNode_value (rest : List (Connective × (Nat × (FilterAtom × List Char)))) :
    ∀ left : FilterNode, (∀ entry ∈ rest, (notPrefix entry.2.2.1.field).2 ≠ []) →
      ∃ tree, restNode left rest = some tree ∧ ∀ data, evaluateFilterNode tree data =
        foldValue (leafValue data) (evaluateFilterNode left data) rest := by
  induction rest with
  | nil =>
      intro left named
      exact ⟨left, rfl, fun data => rfl⟩
  | cons entry rest ih =>
      obtain ⟨c, u⟩ := entry
      intro left named
      obtain ⟨right, isRight, rightValue⟩ := unitNode_value (named (c, u) List.mem_cons_self)
      obtain ⟨tree, isTree, treeValue⟩ := ih (c.node left right)
        (fun entry member => named entry (List.mem_cons_of_mem _ member))
      refine ⟨tree, ?_, ?_⟩
      · rw [restNode, isRight]
        exact isTree
      · intro data
        rw [treeValue, evaluate_node, rightValue]
        rfl

/-- The filter of the text of an expression with named comparisons. -/
theorem nblexFilterNew_value {e : BoolExpr FilterAtom} (named : NamedLeaves e) :
    ∃ filter, nblexFilterNew (exprText e) = some filter ∧
      ∀ data, evaluateFilterNode filter data =
        (situate e []).kept.value (leafValue data) := by
  obtain ⟨inFirst, inRest⟩ := kept_leaves (situate e [])
  obtain ⟨left, isLeft, leftValue⟩ := unitNode_value (named _ (leaves_situate inFirst))
  obtain ⟨tree, isTree, treeValue⟩ := restNode_value (situate e []).kept.rest left
    (fun entry member => named _ (leaves_situate (inRest entry member)))
  refine ⟨tree, ?_, ?_⟩
  · rw [nblexFilterNew_exprText, chainTree, isLeft]
    exact isTree
  · intro data
    rw [treeValue, leftValue]
    rfl

/-- An event without data matches nothing. -/
theorem matchesText_noData (text : List Char) {event : Event} (noData : event.data = none) :
    matchesText text event = false := by
  rw [matchesText, filterResult]
  cases nblexFilterNew text with
  | none => rfl
  | some filter => simp [nblexFilterMatches, noData]

theorem leafValue_alone {leaf : FilterAtom × List Char} (stops : Stops leaf.2)
    (free : DotFree leaf.1 leaf.2) {event : Event} {data : Json}
    (carried : event.data = some data) :
    leafValue data leaf = matchesText leaf.1.text event := by
  have alone := (meansAlone_iff leaf.1 stops).mpr free event
  rw [readBefore_eq leaf.1 stops] at alone
  rw [matchesText, ← alone, leafValue]
  simp only [nblexFilterMatches, carried]

/-- On an event with data the filter of an expression is the kept chain over what the comparisons
    mean alone. -/
theorem matchesText_exprText {e : BoolExpr FilterAtom} (named : NamedLeaves e)
    (free : DotFreeLeaves e) {event : Event} {data : Json} (carried : event.data = some data) :
    matchesText (exprText e) event = e.kept.value (fun a => matchesText a.text event) := by
  obtain ⟨filter, isFilter, filterValue⟩ := nblexFilterNew_value named
  have leaf : ∀ leaf ∈ (situate e []).leaves,
      leafValue data leaf = matchesText leaf.1.text event := by
    intro leaf member
    exact leafValue_alone (situate_stops e (Or.inl rfl) leaf member) (free leaf member) carried
  calc matchesText (exprText e) event
      = evaluateFilterNode filter data := by
        rw [matchesText, filterResult, isFilter]
        simp [nblexFilterMatches, carried]
    _ = ((situate e []).kept.under true).value (leafValue data) := filterValue data
    _ = (situate e []).kept.value (fun leaf => matchesText leaf.1.text event) :=
        value_kept_congr true leaf
    _ = ((situate e []).map Prod.fst).kept.value (fun a => matchesText a.text event) :=
        (value_kept_map Prod.fst (fun a : FilterAtom => matchesText a.text event) _).symm
    _ = e.kept.value (fun a => matchesText a.text event) := by rw [map_situate]

theorem groupedMeets_of_leans {e : BoolExpr FilterAtom} (leans : e.Leans) (named : NamedLeaves e)
    (free : DotFreeLeaves e) : GroupedMeets e := by
  refine ⟨?_, ?_⟩
  · obtain ⟨filter, isFilter, -⟩ := nblexFilterNew_value named
    rw [isFilter]
    exact Option.some_ne_none filter
  · intro event rejects
    obtain ⟨c, leans⟩ := leans
    cases carried : event.data with
    | none =>
        have alone : (fun a : FilterAtom => matchesText a.text event) = fun _ => false :=
          funext (fun a => matchesText_noData a.text carried)
        rw [matchesText_noData _ carried, alone, rejects carried]
    | some data =>
        rw [matchesText_exprText named free carried]
        exact leans.value_kept _

end Value

/-! ## Expressions that do not lean to the right -/

/-- The name of a numbered comparison. -/
def leafName (n : Nat) : List Char := List.replicate (n + 1) 'f'

/-- The comparison `f…f == "t"`. -/
def leafAtom (n : Nat) : FilterAtom where
  field := leafName n
  op := .eq
  literal := .string ['t']
  fieldNonempty := List.cons_ne_nil _ _
  fieldChars := by
    intro c member
    rw [List.eq_of_mem_replicate member]
    rfl
  comparison := isComparison_eq
  valid := .plain (by decide) (by decide) .nil

/-- An event that gives the numbered comparisons below `size` the values `v`. -/
def leafEvent (size : Nat) (v : Nat → Bool) : Event where
  type := .log
  timestampNs := 1
  input := none
  data := some (.object ((List.range size).map
    (fun n => (String.ofList (leafName n), .string (if v n then "t" else "f")))))

theorem leafName_plain (n : Nat) : notPrefix (leafName n) = (0, leafName n) :=
  notPrefix_plain rfl

theorem leafAtom_named (n : Nat) : (notPrefix (leafAtom n).field).2 ≠ [] := by
  show (notPrefix (leafName n)).2 ≠ []
  rw [leafName_plain]
  exact List.cons_ne_nil _ _

theorem leafAtom_dotFree (n : Nat) (later : List Char) : DotFree (leafAtom n) later := by
  rintro ⟨negative, digits, isInteger, -⟩
  cases isInteger

theorem leafName_injective {n m : Nat}
    (same : String.ofList (leafName n) = String.ofList (leafName m)) : n = m := by
  have names := congrArg String.toList same
  rw [String.toList_ofList, String.toList_ofList] at names
  simpa [leafName] using congrArg List.length names

theorem leafEvent_value [Pcre2] {size n : Nat} (small : n < size) (v : Nat → Bool) :
    matchesText (leafAtom n).text (leafEvent size v) = v n := by
  have node : (leafAtom n).node [] =
      some (.expr ⟨String.ofList (leafName n), .eq, .string "t", none⟩) := by
    show comparisonNode (leafName n) _ _ _ = _
    rw [comparisonNode, leafName_plain]
    exact if_neg (List.cons_ne_nil _ _)
  have distinct : (((List.range size).map (fun n => (String.ofList (leafName n),
      Json.string (if v n then "t" else "f")))).map Prod.fst).Nodup := by
    rw [List.map_map]
    exact List.nodup_range.map (fun n m same => leafName_injective same)
  have found := Json.get?_of_mem distinct (List.mem_map_of_mem (List.mem_range.mpr small))
  rw [matchesText, filterResult_atom, node]
  show evaluateFilterExpr _ _ = v n
  rw [evaluateFilterExpr, found]
  cases v n with
  | true => rfl
  | false => rfl

/-- Every other shape has an expression that is misread. -/
theorem exists_not_groupedMeets [Pcre2] {s : BoolExpr Unit} (misread : ¬ s.Leans) :
    ∃ e : BoolExpr FilterAtom, e.map (fun _ => ()) = s ∧ NamedLeaves e ∧ DotFreeLeaves e ∧
      ¬ GroupedMeets e := by
  have shape : ((s.label 0).map leafAtom).map (fun _ => ()) = s := by
    rw [BoolExpr.map_map]
    exact map_label s 0
  have atoms : ∀ a ∈ ((s.label 0).map leafAtom).leaves, ∃ n, a = leafAtom n := by
    intro a member
    rw [leaves_map] at member
    obtain ⟨n, -, rfl⟩ := List.mem_map.mp member
    exact ⟨n, rfl⟩
  have named : NamedLeaves ((s.label 0).map leafAtom) := by
    intro a member
    obtain ⟨n, rfl⟩ := atoms a member
    exact leafAtom_named n
  have free : DotFreeLeaves ((s.label 0).map leafAtom) := by
    intro leaf member
    obtain ⟨n, isLeaf⟩ := atoms leaf.1 (leaves_situate member)
    rw [isLeaf]
    exact leafAtom_dotFree n leaf.2
  refine ⟨(s.label 0).map leafAtom, shape, named, free, ?_⟩
  rintro ⟨-, meets⟩
  apply misread
  rw [← shape, leans_map, leans_map, leans_iff _ (label_distinct s 0)]
  intro v
  have values : ∀ n ∈ (s.label 0).leaves,
      matchesText (leafAtom n).text (leafEvent s.leaves.length v) = v n := by
    intro n member
    rw [leaves_label] at member
    exact leafEvent_value (by simpa using member) v
  have here := meets (leafEvent s.leaves.length v) (fun noData => by cases noData)
  rw [matchesText_exprText named free rfl, value_kept_map, value_map] at here
  exact ((value_kept_congr true values).symm.trans here).trans (value_congr values)

/-- Parentheses, `AND`, `OR` and `NOT` mean what they say in the text of every expression that leans
    to the right, with one connective and no negated group, and with names and dots that are not
    misread; and in every other shape of expression they do not. On an event without data the filter
    differs from an expression that holds when its comparisons do not. -/
theorem groupedMeets_iff [Pcre2] :
    (∀ s : BoolExpr Unit, (∀ e : BoolExpr FilterAtom, e.map (fun _ => ()) = s → NamedLeaves e →
      DotFreeLeaves e → GroupedMeets e) ↔ s.Leans) ∧
    ∀ (e : BoolExpr FilterAtom) (event : Event), event.data = none →
      (matchesText (exprText e) event = e.value (fun a => matchesText a.text event) ↔
        e.value (fun _ => false) = false) := by
  refine ⟨?_, ?_⟩
  · intro s
    constructor
    · intro meets
      by_contra misread
      obtain ⟨e, shape, named, free, fails⟩ := exists_not_groupedMeets misread
      exact fails (meets e shape named free)
    · rintro leans e rfl named free
      exact groupedMeets_of_leans ((leans_map _ e).mp leans) named free
  · intro e event noData
    have alone : (fun a : FilterAtom => matchesText a.text event) = fun _ => false :=
      funext (fun a => matchesText_noData a.text noData)
    rw [matchesText_noData _ noData, alone]
    exact eq_comm

/-- The comparison `c == 5`. -/
def letterAtom (c : Char) (fieldChar : isFieldChar c = true) : FilterAtom where
  field := [c]
  op := .eq
  literal := .integer false ['5']
  fieldNonempty := List.cons_ne_nil _ _
  fieldChars := by
    intro d member
    rw [List.mem_singleton.mp member]
    exact fieldChar
  comparison := isComparison_eq
  valid := digits_five

/-- `x == 5 AND (NOT (NOT y == 5))`. -/
def leaningExpr : BoolExpr FilterAtom :=
  .bin .and (.atom (letterAtom 'x' rfl)) (.not (.not (.atom (letterAtom 'y' rfl))))

theorem groupedMeets_leaningExpr :
    let _ := literalPcre2
    exprText leaningExpr = "x == 5 AND (NOT (NOT y == 5))".toList ∧ GroupedMeets leaningExpr := by
  have noDots : ∀ leaf ∈ (situate leaningExpr []).leaves, '.' ∉ leaf.2 := by decide
  refine ⟨by decide, ?_⟩
  apply ((@groupedMeets_iff literalPcre2).1 (leaningExpr.map (fun _ => ()))).mpr
  · exact ⟨.and, rfl, rfl, rfl, trivial⟩
  · rfl
  · unfold NamedLeaves
    decide
  · intro leaf member sensitive
    exact noDots leaf member

/-- `(x == 5 AND y == 5) OR z == 5`. -/
def leftGroupExpr : BoolExpr FilterAtom :=
  .bin .or (.bin .and (.atom (letterAtom 'x' rfl)) (.atom (letterAtom 'y' rfl)))
    (.atom (letterAtom 'z' rfl))

/-- An event with the field `z` only. -/
def leftGroupEvent : Event where
  type := .log
  timestampNs := 1
  input := none
  data := some (.object [("z", .integer 5)])

/-- The filter of `(x == 5 AND y == 5) OR z == 5` forgets what follows the group: it does not match
    an event that `z == 5` matches. -/
theorem leftGroupExpr_misread :
    let _ := literalPcre2
    exprText leftGroupExpr = "(x == 5 AND y == 5) OR z == 5".toList ∧
      matchesText "(x == 5 AND y == 5) OR z == 5".toList leftGroupEvent = false ∧
      matchesText "z == 5".toList leftGroupEvent = true ∧ ¬ GroupedMeets leftGroupExpr := by
  refine ⟨by decide, by decide, by decide, ?_⟩
  rintro ⟨-, meets⟩
  have here := meets leftGroupEvent (fun noData => by cases noData)
  revert here
  decide

end Nblex
