import Nblex.Core.FilterEngine.FilterReads
import Nblex.Core.FilterEngine.Proofs.Spaces

/-!
# The filter parser on pointers

On the pointers into a text without a NUL the parser does what it does on the rests of the text. So
it ends, and reads no character outside of the text and its NUL.
-/

namespace Nblex

/-- A pointer is left where the rest of the text is left, or nothing is found. -/
def Agrees {α : Type} (text : List Char) :
    Option (α × List Char) → Except Fault (Option (α × Nat)) → Prop
  | none, run => run = .ok none
  | some (value, rest), run => ∃ pos, run = .ok (some (value, pos)) ∧ PointsAt text pos rest

/-- The same for a value and its compiled pattern. -/
def ValueAgrees (text : List Char) (read : FilterValue × Option String × List Char)
    (run : Except Fault (FilterValue × Option String × Nat)) : Prop :=
  ∃ pos, run = .ok (read.1, read.2.1, pos) ∧ PointsAt text pos read.2.2

namespace FilterReads

variable {text rest : List Char} {pos turns : Nat}

/-! ## Words -/

theorem find?_words {α β : Type} (word : List Char) (value : α) (words : List (List Char × α))
    (f : List Char × α → β) :
    (((word, value) :: words).find? fun entry => startsWith rest entry.1).map f =
      if startsWith rest word then some (f (word, value))
      else (words.find? fun entry => startsWith rest entry.1).map f := by
  rw [List.find?_cons]
  cases startsWith rest word <;> rfl

theorem parseFilterOp_eq (rest : List Char) :
    parseFilterOp rest = (operators.find? fun entry => startsWith rest entry.1).map fun entry =>
      (entry.2, rest.drop entry.1.length) := by
  simp only [operators, find?_words]
  rfl

theorem parseConnective_eq (rest : List Char) :
    parseConnective rest = (connectives.find? fun entry => startsWith rest entry.1).map fun entry =>
      (entry.2, rest.drop entry.1.length) := by
  simp only [connectives, find?_words]
  rw [parseConnective]
  cases startsWith rest ['A', 'N', 'D'] <;> cases startsWith rest ['a', 'n', 'd'] <;>
    cases startsWith rest ['O', 'R'] <;> rfl

theorem atNot_eq (rest : List Char) :
    atNot rest = (negations.find? fun entry => startsWith rest entry.1).isSome := by
  simp only [negations, List.find?_cons, atNot]
  cases startsWith rest ['N', 'O', 'T'] <;> cases startsWith rest ['n', 'o', 't'] <;> rfl

theorem apart_words {α : Type} {words : List (List Char × α)}
    (clean : words.all (fun entry => !entry.1.contains nul) = true) :
    ∀ entry ∈ words, nul ∉ entry.1 := by
  intro entry member
  simpa using List.all_eq_true.mp clean entry member

/-- A word that is found is in the text. -/
theorem firstMatch_agrees {α : Type} (points : PointsAt text pos rest)
    {words : List (List Char × α)}
    (clean : words.all (fun entry => !entry.1.contains nul) = true) :
    Agrees text ((words.find? fun entry => startsWith rest entry.1).map fun entry =>
      (entry.2, rest.drop entry.1.length)) (firstMatch text pos words) := by
  rw [points.firstMatch words (apart_words clean)]
  cases found : words.find? fun entry => startsWith rest entry.1 with
  | none => rfl
  | some entry =>
      have starts := List.find?_some found
      exact ⟨_, rfl, points.advance (startsWith_length_le starts)⟩

/-! ## Values -/

variable (terminated : nul ∉ text)
include terminated

theorem scanQuoted_points (rest : List Char) : ∀ {pos turns : Nat}, PointsAt text pos rest →
    rest.length < turns →
      scanQuoted text turns pos = .ok (pos + (Nblex.scanQuoted rest).1.length) := by
  fun_induction Nblex.scanQuoted rest with
  | case1 =>
      intro pos turns points enough
      obtain ⟨turns, rfl⟩ := Nat.exists_eq_add_one_of_ne_zero (Nat.ne_zero_of_lt enough)
      rw [scanQuoted, points.read_nil, ok_bind, if_pos (.inl rfl)]
      rfl
  | case2 rest =>
      intro pos turns points enough
      obtain ⟨turns, rfl⟩ := Nat.exists_eq_add_one_of_ne_zero (Nat.ne_zero_of_lt enough)
      rw [scanQuoted, points.read_cons, ok_bind, if_pos (.inr rfl)]
      rfl
  | case3 c rest body tail scanned ih =>
      intro pos turns points enough
      obtain ⟨turns, rfl⟩ := Nat.exists_eq_add_one_of_ne_zero (Nat.ne_zero_of_lt enough)
      have goesOn : ¬('\\' = nul ∨ '\\' = '"') := by decide
      rw [List.length_cons, List.length_cons] at enough
      rw [scanQuoted, points.read_cons, ok_bind, if_neg goesOn, if_pos rfl, points.next.read_cons,
        ok_bind, if_pos (points.next.ne_nul terminated), ih points.next.next (by omega), scanned]
      simp only [List.length_cons]
      congr 1
      omega
  | case4 c rest noQuote noEscape body tail scanned ih =>
      intro pos turns points enough
      obtain ⟨turns, rfl⟩ := Nat.exists_eq_add_one_of_ne_zero (Nat.ne_zero_of_lt enough)
      rw [List.length_cons] at enough
      have goesOn : ¬(c = nul ∨ c = '"') := by
        rintro (isNul | isQuote)
        · exact points.ne_nul terminated isNul
        · exact noQuote isQuote
      have next := ih points.next (Nat.lt_of_succ_lt_succ enough)
      rw [scanned] at next
      have step : scanQuoted text turns (pos + 1) =
          .ok (pos + (c :: body).length) := by
        rw [next, List.length_cons, Nat.add_right_comm, Nat.add_assoc]
      rw [scanQuoted, points.read_cons, ok_bind, if_neg goesOn]
      by_cases escape : c = '\\'
      · -- A backslash that nothing follows.
        have ends : rest = [] := by
          cases rest with
          | nil => rfl
          | cons d rest => exact absurd rfl (noEscape d rest escape)
        subst ends
        rw [if_pos escape, points.next.read_nil, ok_bind, if_neg (not_not.mpr rfl)]
        exact step
      · rw [if_neg escape]
        exact step

theorem parseQuoted_agrees [Pcre2] (op : FilterOp) (points : PointsAt text pos ('"' :: rest))
    (enough : rest.length < turns) :
    ValueAgrees text (Nblex.parseFilterValue op ('"' :: rest))
      (parseQuoted text turns (pos + 1)) := by
  have scanned := scanQuoted_points terminated rest points.next enough
  have split := scanQuoted_append rest
  rw [Nblex.parseFilterValue]
  generalize Nblex.scanQuoted rest = read at scanned split
  obtain ⟨body, tail⟩ := read
  dsimp only at scanned split
  have shorter : body.length ≤ rest.length := by
    rw [← split, List.length_append]
    exact Nat.le_add_right _ _
  have behind : PointsAt text (pos + 1 + body.length) tail := by
    have moved := points.next.advance shorter
    rwa [← split, List.drop_left] at moved
  rw [parseQuoted, scanned, ok_bind, behind.read, ok_bind]
  cases tail with
  | nil =>
      rw [List.headD_nil, if_neg (by decide)]
      exact ⟨_, rfl, behind⟩
  | cons c tail =>
      rw [List.headD_cons]
      by_cases closes : c = '"'
      · subst closes
        have copied := points.next.copy body.length shorter
        rw [← split, List.take_left] at copied
        rw [if_pos rfl, Nat.add_sub_cancel_left, copied, ok_bind]
        exact ⟨_, rfl, behind.next⟩
      · rw [if_neg closes]
        split
        · next same => exact absurd (List.cons.inj (Prod.mk.inj same).2).1 closes
        · next same =>
          obtain ⟨-, rfl⟩ := Prod.mk.inj same
          exact ⟨_, rfl, behind⟩

omit terminated in
theorem atNumber_points (points : PointsAt text pos rest) :
    atNumber text pos = .ok (startsNumber rest) := by
  rw [atNumber, points.read, ok_bind]
  cases rest with
  | nil => rfl
  | cons c rest =>
      rw [List.headD_cons]
      by_cases minus : c = '-'
      · subst minus
        rw [if_neg (by decide), if_pos rfl, points.next.read, ok_bind]
        cases rest <;> rfl
      · have plain : startsNumber (c :: rest) = isdigit c := by
          rw [startsNumber]
          exact fun d tail isMinus _ => minus isMinus
        rw [plain, if_neg minus]
        cases isdigit c <;> rfl

omit terminated in
theorem parseNumber_agrees (points : PointsAt text pos rest) :
    ValueAgrees text
      (if rest.contains '.' then (.real (strtod rest).1, none, (strtod rest).2)
        else (.integer (toInt32 (strtol rest).1), none, (strtol rest).2))
      (parseNumber text pos) := by
  rw [parseNumber, points.string, ok_bind]
  by_cases dot : rest.contains '.' = true
  · rw [if_pos dot, if_pos dot]
    exact ⟨_, rfl, points.tail (strtod_suffix rest)⟩
  · rw [if_neg dot, if_neg dot]
    exact ⟨_, rfl, points.tail (strtol_suffix rest)⟩

theorem parsePattern_agrees [Pcre2] (points : PointsAt text pos rest)
    (enough : rest.length < turns) :
    ValueAgrees text
      (.pattern, if Pcre2.compile (String.ofList (rest.takeWhile fun c => !isspace c)) then
          some (String.ofList (rest.takeWhile fun c => !isspace c)) else none,
        rest.dropWhile fun c => !isspace c) (parsePattern text turns pos) := by
  obtain ⟨scanned, behind⟩ := points.scanWhile terminated (fun c => !isspace c) turns enough
  have prefixed := List.takeWhile_prefix (l := rest) fun c => !isspace c
  have copied := points.copy _ prefixed.length_le
  rw [List.prefix_iff_eq_take.mp prefixed |>.symm] at copied
  rw [parsePattern, scanned, ok_bind, Nat.add_sub_cancel_left, copied, ok_bind]
  exact ⟨_, rfl, behind⟩

theorem parseFilterValue_agrees [Pcre2] (op : FilterOp) (points : PointsAt text pos rest)
    (enough : rest.length < turns) :
    ValueAgrees text (Nblex.parseFilterValue op rest) (parseFilterValue text turns op pos) := by
  rw [parseFilterValue, points.read, ok_bind]
  by_cases quoted : ∃ tail, rest = '"' :: tail
  · obtain ⟨tail, rfl⟩ := quoted
    rw [List.headD_cons, if_pos rfl]
    exact parseQuoted_agrees terminated op points (Nat.lt_of_succ_lt enough)
  · have noQuote : rest.headD nul ≠ '"' := by
      cases rest with
      | nil => decide
      | cons c tail => exact fun same => quoted ⟨tail, congrArg (· :: tail) same⟩
    rw [if_neg noQuote, atNumber_points points, ok_bind,
      parseFilterValue_plain op fun tail same => quoted ⟨tail, same⟩]
    cases startsNumber rest with
    | true => exact parseNumber_agrees points
    | false =>
        rw [if_neg Bool.false_ne_true, if_neg Bool.false_ne_true,
          points.firstMatch booleans (apart_words (by decide)), ok_bind]
        simp only [booleans, List.find?_cons]
        cases isTrue : startsWith rest ['t', 'r', 'u', 'e'] with
        | true => exact ⟨_, rfl, points.advance (startsWith_length_le isTrue)⟩
        | false =>
            cases isFalse : startsWith rest ['f', 'a', 'l', 's', 'e'] with
            | true => exact ⟨_, rfl, points.advance (startsWith_length_le isFalse)⟩
            | false =>
                by_cases matching : op = .patMatch ∨ op = .patNmatch
                · have pattern := parsePattern_agrees terminated points enough
                  simpa [matching] using pattern
                · simp only [matching, if_false]
                  exact ⟨_, rfl, points⟩

/-! ## Terms -/

theorem parseFilterAtom_agrees [Pcre2] (points : PointsAt text pos rest)
    (enough : text.length < turns) :
    Agrees text (Nblex.parseFilterAtom rest) (parseFilterAtom text turns pos) := by
  have bound : ∀ {pos : Nat} {rest : List Char}, PointsAt text pos rest → rest.length < turns :=
    fun points => points.suffix.length_le.trans_lt enough
  obtain ⟨scanned, behind⟩ := points.scanWhile terminated isFieldChar turns (bound points)
  have prefixed := List.takeWhile_prefix (l := rest) isFieldChar
  have copied := points.copy _ prefixed.length_le
  rw [← List.prefix_iff_eq_take.mp prefixed] at copied
  rw [parseFilterAtom, scanned, ok_bind, Nblex.parseFilterAtom]
  cases field : rest.takeWhile isFieldChar with
  | nil =>
      rw [List.length_nil, Nat.add_zero, if_pos rfl]
      rfl
  | cons c name =>
      rw [field] at behind copied
      have moved : ¬pos + (c :: name).length = pos := by
        rw [List.length_cons]
        omega
      obtain ⟨opPos, skipped, atOp⟩ := behind.skipSpace terminated (bound behind)
      rw [if_neg moved, Nat.add_sub_cancel_left, copied, ok_bind, skipped, ok_bind]
      have operator : Agrees text _ (firstMatch text opPos operators) :=
        firstMatch_agrees atOp (by decide)
      rw [← parseFilterOp_eq] at operator
      cases found : parseFilterOp (Nblex.skipSpace (rest.dropWhile isFieldChar)) with
      | none =>
          rw [found] at operator
          have ran : firstMatch text opPos operators = .ok none := operator
          rw [ran, ok_bind]
          rfl
      | some read =>
          obtain ⟨op, tail⟩ := read
          rw [found] at operator
          obtain ⟨valuePos, ran, atValue⟩ := operator
          obtain ⟨valuePos', skippedValue, atValue'⟩ := atValue.skipSpace terminated (bound atValue)
          obtain ⟨stop, value, atStop⟩ :=
            parseFilterValue_agrees terminated op atValue' (bound atValue')
          rw [ran, ok_bind]
          dsimp only
          rw [skippedValue, ok_bind, value, ok_bind]
          exact ⟨stop, rfl, atStop⟩

omit terminated in
theorem skipClose_agrees (points : PointsAt text pos rest) :
    ∃ pos', skipClose text pos = .ok pos' ∧ PointsAt text pos' (Nblex.skipClose rest) := by
  rw [skipClose, points.read, ok_bind]
  cases rest with
  | nil => exact ⟨pos, rfl, points⟩
  | cons c rest =>
      rw [List.headD_cons]
      by_cases closes : c = ')'
      · subst closes
        exact ⟨pos + 1, rfl, points.next⟩
      · rw [if_neg closes]
        refine ⟨pos, rfl, ?_⟩
        rw [Nblex.skipClose]
        · exact points
        · exact fun tail same => closes (List.cons.inj same).1

/-- A term is read as it is from the rest of the text, with room for the depth of the recursion. -/
theorem parseFilterExpr_agrees [Pcre2] (enough : text.length < turns) (fuel : Nat) :
    ∀ {depth pos : Nat} {rest : List Char}, PointsAt text pos rest → rest.length < fuel →
      rest.length < depth →
      Agrees text (Nblex.parseFilterExpr fuel rest) (parseFilterExpr text turns depth pos) := by
  have bound : ∀ {pos : Nat} {rest : List Char}, PointsAt text pos rest → rest.length < turns :=
    fun points => points.suffix.length_le.trans_lt enough
  induction fuel with
  | zero => exact fun _ short => absurd short (Nat.not_lt_zero _)
  | succ fuel ih =>
      intro depth pos rest points short deep
      obtain ⟨depth, rfl⟩ := Nat.exists_eq_add_one_of_ne_zero (Nat.ne_zero_of_lt deep)
      obtain ⟨start, skipped, atStart⟩ := points.skipSpace terminated (bound points)
      have shorter := skipSpace_length_le rest
      rw [parseFilterExpr, skipped, ok_bind, atStart.read, ok_bind]
      by_cases paren : ∃ tail, Nblex.skipSpace rest = '(' :: tail
      · obtain ⟨tail, isParen⟩ := paren
        rw [isParen] at atStart shorter ⊢
        rw [List.length_cons] at shorter
        rw [List.headD_cons, if_pos rfl, parseFilterExpr_paren fuel isParen]
        have inner := @ih depth _ _ atStart.next (by omega) (by omega)
        cases read : Nblex.parseFilterExpr fuel tail with
        | none =>
            rw [read] at inner
            have ran : parseFilterExpr text turns depth (start + 1) = .ok none := inner
            rw [ran, ok_bind]
            rfl
        | some found =>
            obtain ⟨node, stop⟩ := found
            rw [read] at inner
            obtain ⟨stopPos, ran, atStop⟩ := inner
            obtain ⟨closePos, blanks, atClose⟩ := atStop.skipSpace terminated (bound atStop)
            obtain ⟨last, closed, atLast⟩ := skipClose_agrees atClose
            rw [ran, ok_bind]
            dsimp only
            rw [blanks, ok_bind, closed, ok_bind]
            exact ⟨last, rfl, atLast⟩
      · have noParen : (Nblex.skipSpace rest).headD nul ≠ '(' := by
          cases start : Nblex.skipSpace rest with
          | nil => decide
          | cons c tail =>
              exact fun same => paren ⟨tail, start.trans (congrArg (· :: tail) same)⟩
        rw [if_neg noParen, parseFilterExpr_noParen fuel fun tail same => paren ⟨tail, same⟩,
          atNot_eq, atStart.firstMatch negations (apart_words (by decide)), ok_bind]
        cases found : negations.find? fun entry => startsWith (Nblex.skipSpace rest) entry.1 with
        | none => exact parseFilterAtom_agrees terminated atStart enough
        | some entry =>
            have starts := List.find?_some found
            have three : entry.1.length = 3 := by
              have member := List.mem_of_find?_eq_some found
              simp only [negations, List.mem_cons, List.not_mem_nil, or_false] at member
              rcases member with rfl | rfl <;> rfl
            have long := startsWith_length_le starts
            have behind := atStart.advance long
            rw [three] at behind long
            have inner := @ih depth _ _ behind (by rw [List.length_drop]; omega)
              (by rw [List.length_drop]; omega)
            rw [Option.map_some, Option.isSome_some, if_pos rfl, three]
            dsimp only
            cases read : Nblex.parseFilterExpr fuel ((Nblex.skipSpace rest).drop 3) with
            | none =>
                rw [read] at inner
                have ran : parseFilterExpr text turns depth (start + 3) = .ok none := inner
                rw [ran, ok_bind]
                rfl
            | some read' =>
                obtain ⟨node, stop⟩ := read'
                rw [read] at inner
                obtain ⟨stopPos, ran, atStop⟩ := inner
                rw [ran, ok_bind]
                exact ⟨stopPos, rfl, atStop⟩

/-! ## Filters -/

theorem parseFilterLoop_agrees [Pcre2] (enough : text.length < turns) (fuel : Nat) :
    ∀ {left pos : Nat} {rest : List Char} (tree : FilterNode), PointsAt text pos rest →
      rest.length < fuel → rest.length < left →
      parseFilterLoop text turns left tree pos =
        .ok ((Nblex.parseFilterLoop fuel tree rest).map Prod.fst) := by
  have bound : ∀ {pos : Nat} {rest : List Char}, PointsAt text pos rest → rest.length < turns :=
    fun points => points.suffix.length_le.trans_lt enough
  induction fuel with
  | zero => exact fun _ _ short => absurd short (Nat.not_lt_zero _)
  | succ fuel ih =>
      intro left pos rest tree points short more
      obtain ⟨left, rfl⟩ := Nat.exists_eq_add_one_of_ne_zero (Nat.ne_zero_of_lt more)
      rw [parseFilterLoop, points.read, ok_bind, Nblex.parseFilterLoop]
      by_cases ends : rest = []
      · subst ends
        rfl
      · rw [if_neg (fun isNul => ends ((points.headD_eq_nul_iff terminated).mp isNul))]
        obtain ⟨start, skipped, atStart⟩ := points.skipSpace terminated (bound points)
        have connective : Agrees text _ (firstMatch text start connectives) :=
          firstMatch_agrees atStart (by decide)
        rw [← parseConnective_eq] at connective
        rw [skipped, ok_bind]
        cases found : parseConnective (Nblex.skipSpace rest) with
        | none =>
            rw [found] at connective
            have ran : firstMatch text start connectives = .ok none := connective
            rw [ran, ok_bind]
            rfl
        | some read =>
            obtain ⟨node, tail⟩ := read
            rw [found] at connective
            obtain ⟨behind, ran, atTail⟩ := connective
            have shorter := parseConnective_shorter found
            have skipShorter := skipSpace_length_le rest
            have term := parseFilterExpr_agrees terminated enough fuel atTail (by omega)
              (bound atTail)
            rw [ran, ok_bind]
            dsimp only
            cases read : Nblex.parseFilterExpr fuel tail with
            | none =>
                rw [read] at term
                have stopped : parseFilterExpr text turns turns behind = .ok none := term
                rw [stopped, ok_bind]
                rfl
            | some found' =>
                obtain ⟨right, stop⟩ := found'
                have part := (parseFilterExpr_suffix fuel read).length_le
                rw [read] at term
                obtain ⟨stopPos, ran', atStop⟩ := term
                rw [ran', ok_bind]
                exact ih (node tree right) atStop (by omega) (by omega)

/-- On pointers `nblex_filter_new` builds the filter that the text has. -/
theorem nblexFilterNew_runs [Pcre2] (enough : text.length < turns) :
    nblexFilterNew text turns = .ok (Nblex.nblexFilterNew text) := by
  have first := parseFilterExpr_agrees terminated enough (text.length + 1) (pointsAt_start text)
    (Nat.lt_succ_self _) enough
  rw [nblexFilterNew, Nblex.nblexFilterNew, parseFilterFull]
  cases read : Nblex.parseFilterExpr (text.length + 1) text with
  | none =>
      rw [read] at first
      have ran : parseFilterExpr text turns turns 0 = .ok none := first
      rw [ran, ok_bind]
      rfl
  | some found =>
      obtain ⟨left, stop⟩ := found
      have part := (parseFilterExpr_suffix _ read).length_le
      rw [read] at first
      obtain ⟨pos, ran, atStop⟩ := first
      rw [ran, ok_bind]
      exact parseFilterLoop_agrees terminated enough _ left atStop (Nat.lt_succ_of_le part)
        (part.trans_lt enough)

end FilterReads

end Nblex
