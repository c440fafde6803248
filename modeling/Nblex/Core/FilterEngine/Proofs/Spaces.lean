import Nblex.Core.FilterEngine.Proofs.Atoms
import Mathlib.Data.List.DropRight

/-!
# Blanks around a filter

Blanks before and after the text of a filter do not change it: every function of the parser reads
the same from a position when blanks are added to the end of the text, and stops at the same place.
-/

namespace Nblex

/-- The same position with blanks added to the end of the text. -/
def SpaceAfter (pos pos' : List Char) : Prop :=
  ∃ blanks, pos' = pos ++ blanks ∧ ∀ c ∈ blanks, isspace c = true

/-- Both read nothing, or the same up to positions that differ in blanks at the end. -/
inductive SameRead {α : Type} : Option (α × List Char) → Option (α × List Char) → Prop where
  | none : SameRead none none
  | some {a : α} {pos pos' : List Char} (after : SpaceAfter pos pos') :
      SameRead (some (a, pos)) (some (a, pos'))

theorem SameRead.shape {α : Type} {read read' : Option (α × List Char)}
    (same : SameRead read read') :
    (read = .none ∧ read' = .none) ∨
      ∃ a pos pos', read = .some (a, pos) ∧ read' = .some (a, pos') ∧ SpaceAfter pos pos' := by
  cases same with
  | none => exact Or.inl ⟨rfl, rfl⟩
  | some after => exact Or.inr ⟨_, _, _, rfl, rfl, after⟩

theorem SpaceAfter.refl (pos : List Char) : SpaceAfter pos pos :=
  ⟨[], (List.append_nil pos).symm, fun _ member => by cases member⟩

theorem SpaceAfter.cons {pos pos' : List Char} (after : SpaceAfter pos pos') (c : Char) :
    SpaceAfter (c :: pos) (c :: pos') := by
  obtain ⟨blanks, rfl, all⟩ := after
  exact ⟨blanks, rfl, all⟩

theorem SpaceAfter.cons_inv {pos pos' : List Char} {c : Char} (after : SpaceAfter (c :: pos) pos') :
    ∃ tail, pos' = c :: tail ∧ SpaceAfter pos tail := by
  obtain ⟨blanks, rfl, all⟩ := after
  exact ⟨pos ++ blanks, rfl, blanks, rfl, all⟩

/-- At the end of the text there is nothing or a blank. -/
theorem SpaceAfter.nil_inv {pos' : List Char} (after : SpaceAfter [] pos') :
    pos' = [] ∨ ∃ c tail, pos' = c :: tail ∧ isspace c = true ∧ SpaceAfter [] tail := by
  obtain ⟨blanks, same, all⟩ := after
  rw [same]
  cases blanks with
  | nil => exact Or.inl rfl
  | cons c tail =>
      refine Or.inr ⟨c, tail, rfl, all c List.mem_cons_self, tail, rfl, ?_⟩
      intro d member
      exact all d (List.mem_cons_of_mem c member)

/-- A character that is no blank is in both texts. -/
theorem SpaceAfter.visible_inv {pos tail : List Char} {c : Char}
    (after : SpaceAfter pos (c :: tail))
    (visible : isspace c = false) : ∃ rest, pos = c :: rest ∧ SpaceAfter rest tail := by
  cases pos with
  | nil =>
      rcases after.nil_inv with nothing | ⟨d, tail', same, space, -⟩
      · cases nothing
      · rw [← (List.cons.inj same).1, visible] at space
        cases space
  | cons d rest =>
      obtain ⟨tail', same, afterTail⟩ := after.cons_inv
      obtain ⟨rfl, rfl⟩ := List.cons.inj same
      exact ⟨rest, rfl, afterTail⟩

theorem isspace_range {c : Char} (space : isspace c = true) : c = ' ' ∨ c.toNat ≤ 13 := by
  simp only [isspace, Bool.or_eq_true, decide_eq_true_eq, Bool.and_eq_true] at space
  rcases space with blank | ⟨-, upper⟩
  · exact Or.inl blank
  · exact Or.inr upper

/-- No class of characters the parser looks for has a blank in it. -/
theorem isspace_ne {c d : Char} (space : isspace c = true) (visible : isspace d = false) :
    c ≠ d := by
  rintro rfl
  rw [space] at visible
  cases visible

theorem isspace_not_digit {c : Char} (space : isspace c = true) : isdigit c = false := by
  by_contra digit
  have visible := (digit_plain (Bool.eq_true_of_not_eq_false digit)).1
  rw [space] at visible
  cases visible

theorem isspace_not_fieldChar {c : Char} (space : isspace c = true) : isFieldChar c = false := by
  by_contra fieldChar
  have visible := (fieldChar_plain (Bool.eq_true_of_not_eq_false fieldChar)).1
  rw [space] at visible
  cases visible

theorem isspace_not_xdigit {c : Char} (space : isspace c = true) : isxdigit c = false := by
  have digit := isspace_not_digit space
  rcases isspace_range space with rfl | control
  · rfl
  · have lower : ¬ 'a' ≤ c := by
      intro le
      have : 97 ≤ c.toNat := by simpa [Char.le_def, UInt32.le_iff_toNat_le] using le
      omega
    have upper : ¬ 'A' ≤ c := by
      intro le
      have : 65 ≤ c.toNat := by simpa [Char.le_def, UInt32.le_iff_toNat_le] using le
      omega
    rw [isdigit] at digit
    simp [isxdigit, digit, lower, upper]

theorem isspace_toLower {c : Char} (space : isspace c = true) : c.toLower = c := by
  apply dif_neg
  rintro ⟨upper, -⟩
  have bound : 65 ≤ c.toNat := by simpa [UInt32.le_iff_toNat_le] using upper
  rcases isspace_range space with rfl | control
  · revert bound
    decide
  · omega

/-! ## Scanning -/

theorem SpaceAfter.takeWhile {p : Char → Bool} (visible : ∀ c, isspace c = true → p c = false)
    {pos pos' : List Char} (after : SpaceAfter pos pos') :
    pos'.takeWhile p = pos.takeWhile p ∧ SpaceAfter (pos.dropWhile p) (pos'.dropWhile p) := by
  induction pos generalizing pos' with
  | nil =>
      rcases after.nil_inv with rfl | ⟨c, tail, rfl, space, -⟩
      · exact ⟨rfl, after⟩
      · simp only [List.takeWhile, List.dropWhile, visible c space]
        exact ⟨trivial, after⟩
  | cons c pos ih =>
      obtain ⟨tail, rfl, afterTail⟩ := after.cons_inv
      obtain ⟨taken, dropped⟩ := ih afterTail
      cases here : p c with
      | true =>
          simp only [List.takeWhile, List.dropWhile, here]
          exact ⟨congrArg (c :: ·) taken, dropped⟩
      | false =>
          simp only [List.takeWhile, List.dropWhile, here]
          exact ⟨trivial, after⟩

theorem SpaceAfter.skipSpace {pos pos' : List Char} (after : SpaceAfter pos pos') :
    SpaceAfter (skipSpace pos) (skipSpace pos') := by
  induction pos generalizing pos' with
  | nil =>
      obtain ⟨blanks, same, all⟩ := after
      have nothing : Nblex.skipSpace pos' = [] := by
        rw [same]
        exact List.dropWhile_eq_nil_iff.mpr all
      rw [nothing]
      exact .refl []
  | cons c pos ih =>
      obtain ⟨tail, rfl, afterTail⟩ := after.cons_inv
      by_cases space : isspace c = true
      · rw [Nblex.skipSpace, Nblex.skipSpace, List.dropWhile_cons_of_pos space,
          List.dropWhile_cons_of_pos space]
        exact ih afterTail
      · rw [Nblex.skipSpace, Nblex.skipSpace, List.dropWhile_cons_of_neg space,
          List.dropWhile_cons_of_neg space]
        exact after

/-- A keyword without blanks is found in both or in neither. -/
theorem SpaceAfter.startsWith {pos pos' : List Char} (after : SpaceAfter pos pos')
    (keyword : List Char) (visible : keyword.all (fun c => !isspace c) = true) :
    startsWith pos' keyword = startsWith pos keyword ∧
      (startsWith pos keyword = true →
        SpaceAfter (pos.drop keyword.length) (pos'.drop keyword.length)) := by
  induction keyword generalizing pos pos' with
  | nil =>
      refine ⟨by simp [Nblex.startsWith], fun _ => ?_⟩
      exact after
  | cons k keyword ih =>
      rw [List.all_cons, Bool.and_eq_true, Bool.not_eq_true'] at visible
      obtain ⟨visibleK, visible'⟩ := visible
      cases pos with
      | nil =>
          have notFound : Nblex.startsWith pos' (k :: keyword) = false := by
            rcases after.nil_inv with rfl | ⟨c, tail, rfl, space, -⟩
            · rfl
            · simp [Nblex.startsWith, List.isPrefixOf, (isspace_ne space visibleK).symm]
          refine ⟨notFound, ?_⟩
          intro found
          cases found
      | cons c pos =>
          obtain ⟨tail, rfl, afterTail⟩ := after.cons_inv
          obtain ⟨same, dropped⟩ := ih afterTail visible'
          simp only [Nblex.startsWith, List.isPrefixOf_cons_cons, List.length_cons,
            List.drop_succ_cons, Bool.and_eq_true] at same dropped ⊢
          exact ⟨by rw [same], fun found => dropped found.2⟩

theorem SpaceAfter.takeSign {pos pos' : List Char} (after : SpaceAfter pos pos') :
    (takeSign pos').1 = (takeSign pos).1 ∧ SpaceAfter (takeSign pos).2 (takeSign pos').2 := by
  cases pos with
  | nil =>
      rcases after.nil_inv with rfl | ⟨c, tail, rfl, space, -⟩
      · exact ⟨rfl, after⟩
      · have plain : Nblex.takeSign (c :: tail) = (false, c :: tail) := by
          rw [Nblex.takeSign]
          · rintro rest same
            exact isspace_ne space (by decide) (List.cons.inj same).1
          · rintro rest same
            exact isspace_ne space (by decide) (List.cons.inj same).1
        rw [plain]
        exact ⟨rfl, after⟩
  | cons c pos =>
      obtain ⟨tail, rfl, afterTail⟩ := after.cons_inv
      by_cases minus : c = '-'
      · subst minus
        exact ⟨rfl, afterTail⟩
      · by_cases plus : c = '+'
        · subst plus
          exact ⟨rfl, afterTail⟩
        · have plain : ∀ tail, Nblex.takeSign (c :: tail) = (false, c :: tail) := by
            intro tail
            rw [Nblex.takeSign]
            · rintro rest same
              exact minus (List.cons.inj same).1
            · rintro rest same
              exact plus (List.cons.inj same).1
          rw [plain, plain]
          exact ⟨rfl, after⟩

/-! ## Numbers -/

theorem SpaceAfter.strtol {pos pos' : List Char} (after : SpaceAfter pos pos') :
    (strtol pos').1 = (strtol pos).1 ∧ SpaceAfter (strtol pos).2 (strtol pos').2 := by
  obtain ⟨sign, afterSign⟩ := after.skipSpace.takeSign
  obtain ⟨taken, dropped⟩ := afterSign.takeWhile (fun c space => isspace_not_digit space)
  simp only [Nblex.strtol, taken, sign]
  cases (Nblex.takeSign (Nblex.skipSpace pos)).2.takeWhile isdigit with
  | nil => exact ⟨rfl, after⟩
  | cons d digits => exact ⟨rfl, dropped⟩

theorem SpaceAfter.takeExponent {marker : Char} (visible : isspace marker = false)
    {pos pos' : List Char} (after : SpaceAfter pos pos') :
    (takeExponent marker pos').1 = (takeExponent marker pos).1 ∧
      SpaceAfter (takeExponent marker pos).2 (takeExponent marker pos').2 := by
  cases pos with
  | nil =>
      rcases after.nil_inv with rfl | ⟨c, tail, rfl, space, -⟩
      · exact ⟨rfl, after⟩
      · have other : c.toLower ≠ marker := by
          rw [isspace_toLower space]
          exact isspace_ne space visible
        simp only [Nblex.takeExponent, if_neg other]
        exact ⟨trivial, after⟩
  | cons c pos =>
      obtain ⟨tail, rfl, afterTail⟩ := after.cons_inv
      obtain ⟨sign, afterSign⟩ := afterTail.takeSign
      obtain ⟨taken, dropped⟩ := afterSign.takeWhile (fun c space => isspace_not_digit space)
      by_cases here : c.toLower = marker
      · simp only [Nblex.takeExponent, taken, sign, if_pos here]
        cases (Nblex.takeSign pos).2.takeWhile isdigit with
        | nil => exact ⟨rfl, after⟩
        | cons d digits => exact ⟨rfl, dropped⟩
      · simp only [Nblex.takeExponent, if_neg here]
        exact ⟨trivial, after⟩

/-- A number from its whole part, its fraction and what may be an exponent. -/
def numberParts (base expBase : Nat) (marker : Char) (whole fraction rest : List Char) :
    Option (ℚ × List Char) :=
  if whole = [] ∧ fraction = [] then none
  else some ((digitsValue base (whole ++ fraction) : ℚ) / base ^ fraction.length *
    (expBase : ℚ) ^ (takeExponent marker rest).1, (takeExponent marker rest).2)

theorem strtodIn_dot {digit : Char → Bool} {pos rest : List Char}
    (dot : pos.dropWhile digit = '.' :: rest) (base expBase : Nat) (marker : Char) :
    strtodIn base expBase marker digit pos = numberParts base expBase marker
      (pos.takeWhile digit) (rest.takeWhile digit) (rest.dropWhile digit) := by
  rw [strtodIn, dot]
  rfl

theorem strtodIn_plain {digit : Char → Bool} {pos : List Char}
    (plain : ∀ rest, pos.dropWhile digit ≠ '.' :: rest) (base expBase : Nat) (marker : Char) :
    strtodIn base expBase marker digit pos = numberParts base expBase marker
      (pos.takeWhile digit) [] (pos.dropWhile digit) := by
  rw [strtodIn]
  cases rest : pos.dropWhile digit with
  | nil => rfl
  | cons c tail =>
      have noDot : c ≠ '.' := by
        rintro rfl
        exact plain tail rest
      simp [numberParts, noDot]

theorem SpaceAfter.numberParts {rest rest' : List Char} (after : SpaceAfter rest rest')
    (base expBase : Nat) {marker : Char} (visible : isspace marker = false)
    (whole fraction : List Char) :
    SameRead (numberParts base expBase marker whole fraction rest)
      (numberParts base expBase marker whole fraction rest') := by
  obtain ⟨same, afterExponent⟩ := after.takeExponent visible
  rw [Nblex.numberParts, Nblex.numberParts, same]
  split
  · exact .none
  · exact .some afterExponent

theorem SpaceAfter.strtodIn {digit : Char → Bool}
    (visible : ∀ c, isspace c = true → digit c = false) {marker : Char}
    (visibleMarker : isspace marker = false) (base expBase : Nat) {pos pos' : List Char}
    (after : SpaceAfter pos pos') :
    SameRead (strtodIn base expBase marker digit pos)
      (strtodIn base expBase marker digit pos') := by
  obtain ⟨taken, dropped⟩ := after.takeWhile visible
  by_cases dot : ∃ rest, pos.dropWhile digit = '.' :: rest
  · obtain ⟨rest, isDot⟩ := dot
    rw [isDot] at dropped
    obtain ⟨rest', isDot', afterRest⟩ := dropped.cons_inv
    obtain ⟨takenRest, droppedRest⟩ := afterRest.takeWhile visible
    rw [strtodIn_dot isDot, strtodIn_dot isDot', taken, takenRest]
    exact droppedRest.numberParts base expBase visibleMarker _ _
  · have plain : ∀ rest, pos.dropWhile digit ≠ '.' :: rest := fun rest isDot => dot ⟨rest, isDot⟩
    have plain' : ∀ rest, pos'.dropWhile digit ≠ '.' :: rest := by
      intro rest isDot
      rw [isDot] at dropped
      obtain ⟨rest', isDot', -⟩ := dropped.visible_inv (by decide)
      exact plain rest' isDot'
    rw [strtodIn_plain plain, strtodIn_plain plain', taken]
    exact dropped.numberParts base expBase visibleMarker _ _

/-- The hexadecimal reading of a number, if it starts with `0x`. -/
def hexadecimalPart (unsigned : List Char) : Option (ℚ × List Char) :=
  match unsigned with
  | '0' :: x :: rest => if x.toLower = 'x' then strtodIn 16 2 'p' isxdigit rest else none
  | _ => none

theorem SpaceAfter.hexadecimalPart {pos pos' : List Char} (after : SpaceAfter pos pos') :
    SameRead (hexadecimalPart pos) (hexadecimalPart pos') := by
  have single : ∀ {c d : Char} {tail : List Char}, isspace d = true →
      Nblex.hexadecimalPart (c :: d :: tail) = none := by
    intro c d tail space
    have other : d.toLower ≠ 'x' := by
      rw [isspace_toLower space]
      exact isspace_ne space (by decide)
    unfold Nblex.hexadecimalPart
    split
    · next x rest same =>
      obtain ⟨-, same⟩ := List.cons.inj same
      rw [← (List.cons.inj same).1, if_neg other]
    · rfl
  match pos with
  | [] =>
      rcases after.nil_inv with rfl | ⟨c, tail, rfl, space, -⟩
      · exact .none
      · have other : c ≠ '0' := isspace_ne space (by decide)
        have nothing : Nblex.hexadecimalPart (c :: tail) = none := by
          unfold Nblex.hexadecimalPart
          split
          · next x rest same => exact absurd (List.cons.inj same).1 other
          · rfl
        rw [nothing]
        exact .none
  | [c] =>
      obtain ⟨tail, rfl, afterTail⟩ := after.cons_inv
      rcases afterTail.nil_inv with rfl | ⟨d, tail, rfl, space, -⟩
      · have nothing : Nblex.hexadecimalPart [c] = none := by
          unfold Nblex.hexadecimalPart
          split
          · next x rest same => cases (List.cons.inj same).2
          · rfl
        rw [nothing]
        exact .none
      · have nothing : Nblex.hexadecimalPart [c] = none := by
          unfold Nblex.hexadecimalPart
          split
          · next x rest same => cases (List.cons.inj same).2
          · rfl
        rw [nothing, single space]
        exact .none
  | c :: d :: pos =>
      obtain ⟨tail, rfl, afterFirst⟩ := after.cons_inv
      obtain ⟨tail, rfl, afterTail⟩ := afterFirst.cons_inv
      unfold Nblex.hexadecimalPart
      by_cases zero : c = '0'
      · subst zero
        by_cases hex : d.toLower = 'x'
        · have visible : isspace 'p' = false := by decide
          simp only [if_pos hex]
          exact afterTail.strtodIn (fun c space => isspace_not_xdigit space) visible 16 2
        · simp only [if_neg hex]
          exact .none
      · split
        · next x rest same => exact absurd (List.cons.inj same).1 zero
        · split
          · next x rest same => exact absurd (List.cons.inj same).1 zero
          · exact .none

theorem strtod_parts (pos : List Char) :
    strtod pos =
      match (hexadecimalPart (takeSign (skipSpace pos)).2).orElse
        (fun _ => strtodIn 10 10 'e' isdigit (takeSign (skipSpace pos)).2) with
      | some (value, rest) => (if (takeSign (skipSpace pos)).1 then -value else value, rest)
      | none => (0, pos) := rfl

theorem SpaceAfter.strtod {pos pos' : List Char} (after : SpaceAfter pos pos') :
    (strtod pos').1 = (strtod pos).1 ∧ SpaceAfter (strtod pos).2 (strtod pos').2 := by
  obtain ⟨sign, afterSign⟩ := after.skipSpace.takeSign
  have visible : isspace 'e' = false := by decide
  have decimal := afterSign.strtodIn (fun c space => isspace_not_digit space) visible 10 10
  have hexadecimal := afterSign.hexadecimalPart
  rw [strtod_parts, strtod_parts, sign]
  generalize Nblex.hexadecimalPart (Nblex.takeSign (Nblex.skipSpace pos)).2 = hex at hexadecimal ⊢
  generalize Nblex.hexadecimalPart (Nblex.takeSign (Nblex.skipSpace pos')).2 = hex'
    at hexadecimal ⊢
  generalize Nblex.strtodIn 10 10 'e' isdigit _ = dec at decimal ⊢
  generalize Nblex.strtodIn 10 10 'e' isdigit _ = dec' at decimal ⊢
  cases hexadecimal with
  | none =>
      cases decimal with
      | none => exact ⟨rfl, after⟩
      | some afterRead => exact ⟨rfl, afterRead⟩
  | some afterRead => exact ⟨rfl, afterRead⟩

/-! ## Terms -/

theorem SpaceAfter.startsNumber {pos pos' : List Char} (after : SpaceAfter pos pos') :
    startsNumber pos' = startsNumber pos := by
  have plain : ∀ {c : Char} (tail : List Char), c ≠ '-' →
      Nblex.startsNumber (c :: tail) = isdigit c := by
    intro c tail noMinus
    rw [Nblex.startsNumber]
    intro d rest isMinus
    exact absurd isMinus noMinus
  rcases pos with _ | ⟨c, _ | ⟨d, pos⟩⟩
  · rcases after.nil_inv with rfl | ⟨c, tail, rfl, space, -⟩
    · rfl
    · rw [plain tail (isspace_ne space (by decide)), isspace_not_digit space]
      rfl
  · obtain ⟨tail, rfl, afterTail⟩ := after.cons_inv
    by_cases minus : c = '-'
    · subst minus
      rcases afterTail.nil_inv with rfl | ⟨d, tail, rfl, space, -⟩
      · rfl
      · exact isspace_not_digit space
    · rw [plain tail minus, plain [] minus]
  · obtain ⟨tail, rfl, afterFirst⟩ := after.cons_inv
    obtain ⟨tail, rfl, -⟩ := afterFirst.cons_inv
    by_cases minus : c = '-'
    · subst minus
      rfl
    · rw [plain _ minus, plain _ minus]

theorem SpaceAfter.contains {pos pos' : List Char} (after : SpaceAfter pos pos') {c : Char}
    (visible : isspace c = false) : pos'.contains c = pos.contains c := by
  obtain ⟨blanks, rfl, all⟩ := after
  have noBlank : c ∉ blanks := by
    intro member
    rw [all c member] at visible
    cases visible
  simp [noBlank]

theorem scanQuoted_plain {c : Char} (rest : List Char) (noQuote : c ≠ '"')
    (noEscape : c = '\\' → rest = []) :
    scanQuoted (c :: rest) = (c :: (scanQuoted rest).1, (scanQuoted rest).2) := by
  rw [scanQuoted]
  · exact noQuote
  · intro d tail isEscape same
    rw [noEscape isEscape] at same
    cases same

theorem scanQuoted_blanks {blanks : List Char} (all : ∀ c ∈ blanks, isspace c = true) :
    (scanQuoted blanks).2 = [] := by
  induction blanks with
  | nil => rfl
  | cons c blanks ih =>
      have space := all c List.mem_cons_self
      rw [scanQuoted_plain blanks (isspace_ne space (by decide))
        (fun isEscape => absurd isEscape (isspace_ne space (by decide)))]
      exact ih (fun d member => all d (List.mem_cons_of_mem c member))

/-- A quoted string is closed in both texts at the same place, or in neither. -/
theorem SpaceAfter.scanQuoted {pos pos' : List Char} (after : SpaceAfter pos pos') :
    (∃ body rest rest', scanQuoted pos = (body, '"' :: rest) ∧
      scanQuoted pos' = (body, '"' :: rest') ∧ SpaceAfter rest rest') ∨
    ((scanQuoted pos).2 = [] ∧ (scanQuoted pos').2 = []) := by
  have grow : ∀ (put : List Char → List Char) {left right : List Char × List Char},
      ((∃ body rest rest', left = (body, '"' :: rest) ∧ right = (body, '"' :: rest') ∧
        SpaceAfter rest rest') ∨ (left.2 = [] ∧ right.2 = [])) →
      ((∃ body rest rest', (put left.1, left.2) = (body, '"' :: rest) ∧
        (put right.1, right.2) = (body, '"' :: rest') ∧ SpaceAfter rest rest') ∨
        (left.2 = [] ∧ right.2 = [])) := by
    rintro put left right (⟨body, rest, rest', rfl, rfl, afterRest⟩ | open_)
    · exact Or.inl ⟨put body, rest, rest', rfl, rfl, afterRest⟩
    · exact Or.inr open_
  induction pos using scanQuoted.induct generalizing pos' with
  | case1 =>
      obtain ⟨blanks, same, all⟩ := after
      refine Or.inr ⟨rfl, ?_⟩
      rw [same]
      exact scanQuoted_blanks all
  | case2 rest =>
      obtain ⟨tail, rfl, afterTail⟩ := after.cons_inv
      exact Or.inl ⟨[], rest, tail, rfl, rfl, afterTail⟩
  | case3 c rest body tail read ih =>
      obtain ⟨tail, rfl, afterFirst⟩ := after.cons_inv
      obtain ⟨tail, rfl, afterTail⟩ := afterFirst.cons_inv
      exact grow (fun body => '\\' :: c :: body) (ih afterTail)
  | case4 c rest noQuote noEscape body tail read ih =>
      obtain ⟨tail, rfl, afterTail⟩ := after.cons_inv
      have single : c = '\\' → rest = [] := by
        rintro rfl
        cases rest with
        | nil => rfl
        | cons d rest => exact absurd rfl (noEscape d rest rfl)
      by_cases escape : c = '\\'
      · subst escape
        obtain rfl := single rfl
        refine Or.inr ⟨rfl, ?_⟩
        rcases afterTail.nil_inv with rfl | ⟨d, tail, rfl, space, blanks, same, all⟩
        · rfl
        · rw [Nblex.scanQuoted]
          show (Nblex.scanQuoted tail).2 = []
          rw [same]
          exact scanQuoted_blanks all
      · rw [scanQuoted_plain rest noQuote single,
          scanQuoted_plain tail noQuote (fun isEscape => absurd isEscape escape)]
        exact grow (fun body => c :: body) (ih afterTail)

theorem parseFilterValue_plain [Pcre2] (op : FilterOp) {pos : List Char}
    (noQuote : ∀ rest, pos ≠ '"' :: rest) :
    parseFilterValue op pos =
      if startsNumber pos then
        if pos.contains '.' then (.real (strtod pos).1, none, (strtod pos).2)
        else (.integer (toInt32 (strtol pos).1), none, (strtol pos).2)
      else if startsWith pos ['t', 'r', 'u', 'e'] then (.bool true, none, pos.drop 4)
      else if startsWith pos ['f', 'a', 'l', 's', 'e'] then (.bool false, none, pos.drop 5)
      else if op = .patMatch ∨ op = .patNmatch then
        (.pattern, if Pcre2.compile (String.ofList (pos.takeWhile (fun c => !isspace c))) then
            some (String.ofList (pos.takeWhile (fun c => !isspace c))) else none,
          pos.dropWhile (fun c => !isspace c))
      else (.unset, none, pos) := by
  rw [parseFilterValue]
  exact noQuote

/-- Both read the same value. -/
def SameValue (read read' : FilterValue × Option String × List Char) : Prop :=
  read'.1 = read.1 ∧ read'.2.1 = read.2.1 ∧ SpaceAfter read.2.2 read'.2.2

theorem SpaceAfter.parseFilterValue [Pcre2] (op : FilterOp) {pos pos' : List Char}
    (after : SpaceAfter pos pos') :
    SameValue (parseFilterValue op pos) (parseFilterValue op pos') := by
  by_cases quoted : ∃ rest, pos = '"' :: rest
  · obtain ⟨rest, rfl⟩ := quoted
    obtain ⟨tail, rfl, afterTail⟩ := after.cons_inv
    rw [Nblex.parseFilterValue, Nblex.parseFilterValue]
    rcases afterTail.scanQuoted with ⟨body, stop, stop', read, read', afterStop⟩ | ⟨open_, open'⟩
    · rw [read, read']
      exact ⟨rfl, rfl, afterStop⟩
    · cases read : Nblex.scanQuoted rest with
      | mk body stop =>
          cases read' : Nblex.scanQuoted tail with
          | mk body' stop' =>
              rw [read] at open_
              rw [read'] at open'
              obtain rfl : stop = [] := open_
              obtain rfl : stop' = [] := open'
              exact ⟨rfl, rfl, .refl []⟩
  · have noQuote : ∀ rest, pos ≠ '"' :: rest := fun rest same => quoted ⟨rest, same⟩
    have noQuote' : ∀ rest, pos' ≠ '"' :: rest := by
      rintro rest rfl
      obtain ⟨rest', isQuote, -⟩ := after.visible_inv (by decide)
      exact noQuote rest' isQuote
    have visible : ∀ c, isspace c = true → (!isspace c) = false := by
      intro c space
      rw [space]
      rfl
    obtain ⟨taken, dropped⟩ := after.takeWhile visible
    obtain ⟨sameTrue, dropTrue⟩ := after.startsWith ['t', 'r', 'u', 'e'] (by decide)
    obtain ⟨sameFalse, dropFalse⟩ :=
      after.startsWith ['f', 'a', 'l', 's', 'e'] (by decide)
    rw [parseFilterValue_plain op noQuote, parseFilterValue_plain op noQuote',
      after.startsNumber, after.contains (c := '.') (by decide), sameTrue, sameFalse, taken]
    split
    · split
      · exact ⟨congrArg FilterValue.real after.strtod.1, rfl, after.strtod.2⟩
      · rw [after.strtol.1]
        exact ⟨rfl, rfl, after.strtol.2⟩
    · split
      · next found => exact ⟨rfl, rfl, dropTrue found⟩
      · split
        · next found => exact ⟨rfl, rfl, dropFalse found⟩
        · split
          · exact ⟨rfl, rfl, dropped⟩
          · exact ⟨rfl, rfl, after⟩

theorem SpaceAfter.parseFilterOp {pos pos' : List Char} (after : SpaceAfter pos pos') :
    SameRead (parseFilterOp pos) (parseFilterOp pos') := by
  obtain ⟨eq, dropEq⟩ := after.startsWith ['=', '='] (by decide)
  obtain ⟨ne, dropNe⟩ := after.startsWith ['!', '='] (by decide)
  obtain ⟨le, dropLe⟩ := after.startsWith ['<', '='] (by decide)
  obtain ⟨ge, dropGe⟩ := after.startsWith ['>', '='] (by decide)
  obtain ⟨lt, dropLt⟩ := after.startsWith ['<'] (by decide)
  obtain ⟨gt, dropGt⟩ := after.startsWith ['>'] (by decide)
  obtain ⟨isMatch, dropMatch⟩ := after.startsWith ['=', '~'] (by decide)
  obtain ⟨noMatch, dropNoMatch⟩ := after.startsWith ['!', '~'] (by decide)
  obtain ⟨isIn, dropIn⟩ := after.startsWith ['i', 'n'] (by decide)
  obtain ⟨contains, dropContains⟩ :=
    after.startsWith ['c', 'o', 'n', 't', 'a', 'i', 'n', 's'] (by decide)
  rw [Nblex.parseFilterOp, Nblex.parseFilterOp, eq, ne, le, ge, lt, gt, isMatch, noMatch, isIn,
    contains]
  by_cases isEq : Nblex.startsWith pos ['=', '='] = true
  · rw [if_pos isEq, if_pos isEq]
    exact .some (dropEq isEq)
  rw [if_neg isEq, if_neg isEq]
  by_cases isNe : Nblex.startsWith pos ['!', '='] = true
  · rw [if_pos isNe, if_pos isNe]
    exact .some (dropNe isNe)
  rw [if_neg isNe, if_neg isNe]
  by_cases isLe : Nblex.startsWith pos ['<', '='] = true
  · rw [if_pos isLe, if_pos isLe]
    exact .some (dropLe isLe)
  rw [if_neg isLe, if_neg isLe]
  by_cases isGe : Nblex.startsWith pos ['>', '='] = true
  · rw [if_pos isGe, if_pos isGe]
    exact .some (dropGe isGe)
  rw [if_neg isGe, if_neg isGe]
  by_cases isLt : Nblex.startsWith pos ['<'] = true
  · rw [if_pos isLt, if_pos isLt]
    exact .some (dropLt isLt)
  rw [if_neg isLt, if_neg isLt]
  by_cases isGt : Nblex.startsWith pos ['>'] = true
  · rw [if_pos isGt, if_pos isGt]
    exact .some (dropGt isGt)
  rw [if_neg isGt, if_neg isGt]
  by_cases isMatch : Nblex.startsWith pos ['=', '~'] = true
  · rw [if_pos isMatch, if_pos isMatch]
    exact .some (dropMatch isMatch)
  rw [if_neg isMatch, if_neg isMatch]
  by_cases isNoMatch : Nblex.startsWith pos ['!', '~'] = true
  · rw [if_pos isNoMatch, if_pos isNoMatch]
    exact .some (dropNoMatch isNoMatch)
  rw [if_neg isNoMatch, if_neg isNoMatch]
  by_cases isIn : Nblex.startsWith pos ['i', 'n'] = true
  · rw [if_pos isIn, if_pos isIn]
    exact .some (dropIn isIn)
  rw [if_neg isIn, if_neg isIn]
  by_cases isContains : Nblex.startsWith pos ['c', 'o', 'n', 't', 'a', 'i', 'n', 's'] = true
  · rw [if_pos isContains, if_pos isContains]
    exact .some (dropContains isContains)
  rw [if_neg isContains, if_neg isContains]
  exact .none

theorem SpaceAfter.skipClose {pos pos' : List Char} (after : SpaceAfter pos pos') :
    SpaceAfter (skipClose pos) (skipClose pos') := by
  have plain : ∀ {c : Char} (tail : List Char), c ≠ ')' →
      Nblex.skipClose (c :: tail) = c :: tail := by
    intro c tail open_
    rw [Nblex.skipClose]
    intro rest same
    exact open_ (List.cons.inj same).1
  cases pos with
  | nil =>
      rcases after.nil_inv with rfl | ⟨c, tail, rfl, space, -⟩
      · exact .refl []
      · rw [plain tail (isspace_ne space (by decide))]
        exact after
  | cons c pos =>
      obtain ⟨tail, rfl, afterTail⟩ := after.cons_inv
      by_cases close : c = ')'
      · subst close
        exact afterTail
      · rw [plain pos close, plain tail close]
        exact after

theorem atNot_length {pos : List Char} (negates : atNot pos = true) : 3 ≤ pos.length := by
  rcases Bool.or_eq_true_iff.mp negates with found | found
  · obtain ⟨rest, rfl⟩ := startsWith_iff.mp found
    simp
  · obtain ⟨rest, rfl⟩ := startsWith_iff.mp found
    simp

theorem SpaceAfter.atNot {pos pos' : List Char} (after : SpaceAfter pos pos') :
    atNot pos' = atNot pos ∧ (atNot pos = true → SpaceAfter (pos.drop 3) (pos'.drop 3)) := by
  obtain ⟨upper, dropUpper⟩ := after.startsWith ['N', 'O', 'T'] (by decide)
  obtain ⟨lower, dropLower⟩ := after.startsWith ['n', 'o', 't'] (by decide)
  rw [Nblex.atNot, Nblex.atNot, upper, lower]
  refine ⟨rfl, ?_⟩
  intro negates
  rcases Bool.or_eq_true_iff.mp negates with found | found
  · exact dropUpper found
  · exact dropLower found

theorem SameRead.map {α β : Type} {read read' : Option (α × List Char)}
    (same : SameRead read read') (f : α → β) {g : List Char → List Char}
    (keeps : ∀ {pos pos' : List Char}, SpaceAfter pos pos' → SpaceAfter (g pos) (g pos')) :
    SameRead (read.map (fun r => (f r.1, g r.2))) (read'.map (fun r => (f r.1, g r.2))) := by
  cases same with
  | none => exact .none
  | some after => exact .some (keeps after)

section Parser

variable [Pcre2]

theorem SpaceAfter.parseFilterAtom {pos pos' : List Char} (after : SpaceAfter pos pos') :
    SameRead (parseFilterAtom pos) (parseFilterAtom pos') := by
  obtain ⟨taken, dropped⟩ := after.takeWhile (fun c space => isspace_not_fieldChar space)
  have afterOp := dropped.skipSpace.parseFilterOp
  simp only [Nblex.parseFilterAtom, taken]
  cases pos.takeWhile isFieldChar with
  | nil => exact .none
  | cons c field =>
      generalize Nblex.parseFilterOp (Nblex.skipSpace (pos.dropWhile isFieldChar)) = read
        at afterOp ⊢
      generalize Nblex.parseFilterOp (Nblex.skipSpace (pos'.dropWhile isFieldChar)) = read'
        at afterOp ⊢
      cases afterOp with
      | none => exact .none
      | @some op rest rest' afterRest =>
          obtain ⟨value, code, afterValue⟩ := afterRest.skipSpace.parseFilterValue op
          simp only [value, code]
          exact .some afterValue

/-- A term reads the same with blanks at the end of the text and with any fuel that is enough. -/
theorem SpaceAfter.parseFilterExpr {fuel : Nat} :
    ∀ {fuel' : Nat} {pos pos' : List Char}, SpaceAfter pos pos' → pos.length < fuel →
      pos'.length < fuel' → SameRead (parseFilterExpr fuel pos) (parseFilterExpr fuel' pos') := by
  induction fuel with
  | zero =>
      intro fuel' pos pos' after enough
      exact absurd enough (Nat.not_lt_zero _)
  | succ fuel ih =>
      intro fuel' pos pos' after enough enough'
      obtain ⟨fuel', rfl⟩ :=
        Nat.exists_eq_succ_of_ne_zero (Nat.ne_of_gt (Nat.zero_lt_of_lt enough'))
      have shorter := skipSpace_length_le pos
      have shorter' := skipSpace_length_le pos'
      have afterSpace := after.skipSpace
      by_cases paren : ∃ rest, Nblex.skipSpace pos = '(' :: rest
      · obtain ⟨rest, isParen⟩ := paren
        rw [isParen] at afterSpace shorter
        obtain ⟨rest', isParen', afterRest⟩ := afterSpace.cons_inv
        rw [isParen'] at shorter'
        simp only [List.length_cons] at shorter shorter'
        rw [parseFilterExpr_paren fuel isParen, parseFilterExpr_paren fuel' isParen']
        exact (ih afterRest (by omega) (by omega)).map id (fun after => after.skipSpace.skipClose)
      · have noParen : ∀ rest, Nblex.skipSpace pos ≠ '(' :: rest := fun rest h => paren ⟨rest, h⟩
        have noParen' : ∀ rest, Nblex.skipSpace pos' ≠ '(' :: rest := by
          intro rest isParen
          rw [isParen] at afterSpace
          obtain ⟨rest', isParen', -⟩ := afterSpace.visible_inv (by decide)
          exact noParen rest' isParen'
        obtain ⟨sameNot, dropNot⟩ := afterSpace.atNot
        rw [parseFilterExpr_noParen fuel noParen, parseFilterExpr_noParen fuel' noParen', sameNot]
        split
        · next negates =>
          have drop := dropNot negates
          have long := atNot_length negates
          have long' := atNot_length (sameNot.trans negates)
          refine (ih drop ?_ ?_).map FilterNode.not (fun after => after)
          · rw [List.length_drop]
            omega
          · rw [List.length_drop]
            omega
        · exact afterSpace.parseFilterAtom

end Parser

theorem SpaceAfter.parseConnective {pos pos' : List Char} (after : SpaceAfter pos pos') :
    SameRead (parseConnective pos) (parseConnective pos') := by
  obtain ⟨upperAnd, dropUpperAnd⟩ := after.startsWith ['A', 'N', 'D'] (by decide)
  obtain ⟨lowerAnd, dropLowerAnd⟩ := after.startsWith ['a', 'n', 'd'] (by decide)
  obtain ⟨upperOr, dropUpperOr⟩ := after.startsWith ['O', 'R'] (by decide)
  obtain ⟨lowerOr, dropLowerOr⟩ := after.startsWith ['o', 'r'] (by decide)
  rw [Nblex.parseConnective, Nblex.parseConnective, upperAnd, lowerAnd, upperOr, lowerOr]
  split
  · next found =>
    refine .some ?_
    rcases Bool.or_eq_true_iff.mp found with upper | lower
    · exact dropUpperAnd upper
    · exact dropLowerAnd lower
  split
  · next found =>
    refine .some ?_
    rcases Bool.or_eq_true_iff.mp found with upper | lower
    · exact dropUpperOr upper
    · exact dropLowerOr lower
  · exact .none

theorem rdropWhile_spaceAfter (text : List Char) :
    SpaceAfter (text.rdropWhile isspace) text :=
  ⟨text.rtakeWhile isspace, (List.rdropWhile_append_rtakeWhile).symm,
    fun _ member => List.mem_rtakeWhile_imp member⟩

/-! ## What is left of a text -/

theorem skipSpace_suffix (pos : List Char) : skipSpace pos <:+ pos := List.dropWhile_suffix _

theorem takeSign_suffix (pos : List Char) : (takeSign pos).2 <:+ pos := by
  unfold takeSign
  split
  · exact List.suffix_cons _ _
  · exact List.suffix_cons _ _
  · exact List.suffix_refl _

theorem strtol_suffix (pos : List Char) : (strtol pos).2 <:+ pos := by
  have unsigned := (takeSign_suffix (skipSpace pos)).trans (skipSpace_suffix pos)
  simp only [strtol]
  split
  · exact List.suffix_refl _
  · exact (List.dropWhile_suffix _).trans unsigned

theorem takeExponent_suffix (marker : Char) (pos : List Char) :
    (takeExponent marker pos).2 <:+ pos := by
  cases pos with
  | nil => exact List.suffix_refl _
  | cons c rest =>
      have unsigned := (takeSign_suffix rest).trans (List.suffix_cons c rest)
      simp only [takeExponent]
      split
      · split
        · exact List.suffix_refl _
        · exact (List.dropWhile_suffix _).trans unsigned
      · exact List.suffix_refl _

theorem strtodIn_suffix {base expBase : Nat} {marker : Char} {digit : Char → Bool}
    {pos rest : List Char} {value : ℚ}
    (read : strtodIn base expBase marker digit pos = some (value, rest)) : rest <:+ pos := by
  have parts : ∀ {whole fraction tail : List Char},
      numberParts base expBase marker whole fraction tail = some (value, rest) →
      rest <:+ tail := by
    intro whole fraction tail isRead
    unfold numberParts at isRead
    split at isRead
    · cases isRead
    · obtain ⟨-, rfl⟩ := Prod.mk.inj (Option.some.inj isRead)
      exact takeExponent_suffix marker tail
  by_cases dot : ∃ tail, pos.dropWhile digit = '.' :: tail
  · obtain ⟨tail, isDot⟩ := dot
    rw [strtodIn_dot isDot] at read
    have inTail : '.' :: tail <:+ pos := isDot ▸ List.dropWhile_suffix _
    exact ((parts read).trans (List.dropWhile_suffix _)).trans
      ((List.suffix_cons _ _).trans inTail)
  · have plain : ∀ tail, pos.dropWhile digit ≠ '.' :: tail := fun tail isDot => dot ⟨tail, isDot⟩
    rw [strtodIn_plain plain] at read
    exact (parts read).trans (List.dropWhile_suffix _)

theorem strtod_suffix (pos : List Char) : (strtod pos).2 <:+ pos := by
  have unsigned := (takeSign_suffix (skipSpace pos)).trans (skipSpace_suffix pos)
  have hexadecimal : ∀ {value : ℚ} {rest : List Char},
      hexadecimalPart (takeSign (skipSpace pos)).2 = some (value, rest) →
      rest <:+ (takeSign (skipSpace pos)).2 := by
    intro value rest read
    unfold hexadecimalPart at read
    split at read
    · next x tail shape =>
      split at read
      · rw [shape]
        exact (strtodIn_suffix read).trans
          ((List.suffix_cons x tail).trans (List.suffix_cons '0' (x :: tail)))
      · cases read
    · cases read
  rw [strtod_parts]
  cases hex : hexadecimalPart (takeSign (skipSpace pos)).2 with
  | some read => exact (hexadecimal hex).trans unsigned
  | none =>
      cases dec : strtodIn 10 10 'e' isdigit (takeSign (skipSpace pos)).2 with
      | some read => exact (strtodIn_suffix dec).trans unsigned
      | none => exact List.suffix_refl _

theorem afterWord_suffix {word pos rest : List Char} (read : afterWord word pos = some rest) :
    rest <:+ pos := by
  unfold afterWord at read
  split at read
  · obtain rfl := Option.some.inj read
    exact List.drop_suffix _ _
  · cases read

theorem skipNanChars_suffix (pos : List Char) : skipNanChars pos <:+ pos := by
  unfold skipNanChars
  split
  · next rest =>
    split
    · next tail closed =>
      have inside : ')' :: tail <:+ rest := closed ▸ List.dropWhile_suffix _
      exact ((List.suffix_cons _ _).trans inside).trans (List.suffix_cons _ _)
    · exact List.suffix_refl _
  · exact List.suffix_refl _

theorem strtodSpecial_suffix {negative : Bool} {pos rest : List Char} {value : Double}
    (read : strtodSpecial negative pos = some (value, rest)) : rest <:+ pos := by
  unfold strtodSpecial at read
  split at read
  · next after =>
    obtain ⟨-, rfl⟩ := Prod.mk.inj (Option.some.inj read)
    exact afterWord_suffix after
  · split at read
    · next after =>
      obtain ⟨-, rfl⟩ := Prod.mk.inj (Option.some.inj read)
      exact afterWord_suffix after
    · obtain ⟨after, found, same⟩ := Option.map_eq_some_iff.mp read
      obtain ⟨-, rfl⟩ := Prod.mk.inj same
      exact (skipNanChars_suffix after).trans (afterWord_suffix found)

theorem strtodDouble_suffix (pos : List Char) : (strtodDouble pos).2 <:+ pos := by
  unfold strtodDouble
  dsimp only
  split
  · next read =>
    exact ((strtodSpecial_suffix read).trans (takeSign_suffix _)).trans (skipSpace_suffix pos)
  · exact strtod_suffix pos

/-- Where a filter reads a number, a digit has been seen, and the number is a finite one. -/
theorem strtodDouble_startsNumber {pos : List Char} (number : startsNumber pos = true) :
    strtodDouble pos = (.finite (strtod pos).1, (strtod pos).2) := by
  have single : ∀ {c : Char}, isdigit c = true → Digits [c] := fun digit =>
    ⟨List.cons_ne_nil _ _, fun d member => List.mem_singleton.mp member ▸ digit⟩
  unfold startsNumber at number
  split at number
  · next c rest => exact strtodDouble_number true (single number) rest
  · next c rest _ => exact strtodDouble_number false (single number) rest
  · cases number

/-- The loop over a quoted string divides the text. -/
theorem scanQuoted_append (pos : List Char) : (scanQuoted pos).1 ++ (scanQuoted pos).2 = pos := by
  fun_induction scanQuoted pos with
  | case1 => rfl
  | case2 rest => rfl
  | case3 c rest body tail scanned ih =>
      rw [scanned] at ih
      exact congrArg (fun rest => '\\' :: c :: rest) ih
  | case4 c rest body tail noEscape noClose scanned ih =>
      rw [scanned] at ih
      exact congrArg (c :: ·) ih

theorem scanQuoted_suffix (pos : List Char) : (scanQuoted pos).2 <:+ pos :=
  ⟨_, scanQuoted_append pos⟩

theorem skipClose_suffix (pos : List Char) : skipClose pos <:+ pos := by
  unfold skipClose
  split
  · exact List.suffix_cons _ _
  · exact List.suffix_refl _

theorem parseFilterOp_suffix {pos rest : List Char} {op : FilterOp}
    (read : parseFilterOp pos = some (op, rest)) : rest <:+ pos := by
  have step : ∀ {found : Bool} {op' : FilterOp} {n : Nat} {other : Option (FilterOp × List Char)},
      (if found then some (op', pos.drop n) else other) = some (op, rest) →
      (other = some (op, rest) → rest <:+ pos) → rest <:+ pos := by
    intro found op' n other read otherwise
    cases found with
    | true =>
        obtain ⟨-, rfl⟩ := Prod.mk.inj (Option.some.inj read)
        exact List.drop_suffix n pos
    | false => exact otherwise read
  rw [parseFilterOp] at read
  refine step read fun read => step read fun read => step read fun read => step read fun read =>
    step read fun read => step read fun read => step read fun read => step read fun read =>
    step read fun read => step read fun read => ?_
  cases read

theorem parseConnective_shorter {pos rest : List Char}
    {node : FilterNode → FilterNode → FilterNode}
    (read : parseConnective pos = some (node, rest)) : rest.length + 2 ≤ pos.length := by
  have long : ∀ {keyword : List Char}, startsWith pos keyword = true →
      keyword.length ≤ pos.length := by
    intro keyword found
    obtain ⟨tail, rfl⟩ := startsWith_iff.mp found
    simp
  rw [parseConnective] at read
  split at read
  · next found =>
    obtain ⟨-, rfl⟩ := Prod.mk.inj (Option.some.inj read)
    have three : 3 ≤ pos.length := by
      rcases Bool.or_eq_true_iff.mp found with upper | lower
      · exact long upper
      · exact long lower
    rw [List.length_drop]
    omega
  · split at read
    · next found =>
      obtain ⟨-, rfl⟩ := Prod.mk.inj (Option.some.inj read)
      have two : 2 ≤ pos.length := by
        rcases Bool.or_eq_true_iff.mp found with upper | lower
        · exact long upper
        · exact long lower
      rw [List.length_drop]
      omega
    · cases read

section Rest

variable [Pcre2]

theorem parseFilterValue_suffix (op : FilterOp) (pos : List Char) :
    (parseFilterValue op pos).2.2 <:+ pos := by
  by_cases quoted : ∃ rest, pos = '"' :: rest
  · obtain ⟨rest, rfl⟩ := quoted
    have scanned := (scanQuoted_suffix rest).trans (List.suffix_cons '"' rest)
    rw [parseFilterValue]
    split
    · next body tail read =>
      rw [read] at scanned
      exact (List.suffix_cons _ _).trans scanned
    · next body tail noClose read =>
      rw [read] at scanned
      exact scanned
  · rw [parseFilterValue_plain op (fun rest same => quoted ⟨rest, same⟩)]
    split
    · split
      · exact strtod_suffix pos
      · exact strtol_suffix pos
    · split
      · exact List.drop_suffix _ _
      · split
        · exact List.drop_suffix _ _
        · split
          · exact List.dropWhile_suffix _
          · exact List.suffix_refl _

theorem parseFilterAtom_suffix {pos rest : List Char} {node : FilterNode}
    (read : parseFilterAtom pos = some (node, rest)) : rest <:+ pos := by
  have afterField := (skipSpace_suffix (pos.dropWhile isFieldChar)).trans (List.dropWhile_suffix _)
  simp only [parseFilterAtom] at read
  split at read
  · cases read
  · split at read
    · cases read
    · next op tail isOp =>
      obtain ⟨-, rfl⟩ := Prod.mk.inj (Option.some.inj read)
      exact (parseFilterValue_suffix op _).trans
        ((skipSpace_suffix tail).trans ((parseFilterOp_suffix isOp).trans afterField))

/-- What a term leaves is a part of the text. -/
theorem parseFilterExpr_suffix (fuel : Nat) :
    ∀ {pos rest : List Char} {node : FilterNode},
      parseFilterExpr fuel pos = some (node, rest) → rest <:+ pos := by
  induction fuel with
  | zero =>
      intro pos rest node read
      cases read
  | succ fuel ih =>
      intro pos rest node read
      have space := skipSpace_suffix pos
      by_cases paren : ∃ tail, skipSpace pos = '(' :: tail
      · obtain ⟨tail, isParen⟩ := paren
        rw [parseFilterExpr_paren fuel isParen] at read
        obtain ⟨⟨inner, stop⟩, isInner, same⟩ := Option.map_eq_some_iff.mp read
        obtain ⟨-, rfl⟩ := Prod.mk.inj same
        have inTail : '(' :: tail <:+ pos := isParen ▸ space
        exact (skipClose_suffix _).trans ((skipSpace_suffix stop).trans
          ((ih isInner).trans ((List.suffix_cons _ _).trans inTail)))
      · rw [parseFilterExpr_noParen fuel (fun tail same => paren ⟨tail, same⟩)] at read
        split at read
        · obtain ⟨⟨inner, stop⟩, isInner, same⟩ := Option.map_eq_some_iff.mp read
          obtain ⟨-, rfl⟩ := Prod.mk.inj same
          exact (ih isInner).trans ((List.drop_suffix 3 _).trans space)
        · exact (parseFilterAtom_suffix read).trans space

/-! ## The whole text -/

/-- The loop builds the same tree with blanks at the end of the text and with any fuel that is
    enough. -/
theorem SpaceAfter.parseFilterLoop {fuel : Nat} :
    ∀ {fuel' : Nat} {left : FilterNode} {pos pos' : List Char}, SpaceAfter pos pos' →
      pos.length < fuel → pos'.length < fuel' →
      SameRead (parseFilterLoop fuel left pos) (parseFilterLoop fuel' left pos') := by
  induction fuel with
  | zero =>
      intro fuel' left pos pos' after enough
      exact absurd enough (Nat.not_lt_zero _)
  | succ fuel ih =>
      intro fuel' left pos pos' after enough enough'
      obtain ⟨fuel', rfl⟩ :=
        Nat.exists_eq_succ_of_ne_zero (Nat.ne_of_gt (Nat.zero_lt_of_lt enough'))
      have shorter := skipSpace_length_le pos
      have shorter' := skipSpace_length_le pos'
      rw [Nblex.parseFilterLoop, Nblex.parseFilterLoop]
      rcases after.skipSpace.parseConnective.shape with
        ⟨read, read'⟩ | ⟨node, rest, rest', read, read', afterRest⟩
      · rw [read, read']
        exact .some after.skipSpace
      · have shorterRest := parseConnective_shorter read
        have shorterRest' := parseConnective_shorter read'
        have afterTerm : SameRead (Nblex.parseFilterExpr fuel rest)
            (Nblex.parseFilterExpr fuel' rest') :=
          afterRest.parseFilterExpr (by omega) (by omega)
        rw [read, read']
        dsimp only
        rcases afterTerm.shape with ⟨term, term'⟩ | ⟨right, stop, stop', term, term', afterStop⟩
        · rw [term, term']
          exact .none
        · have inRest := (parseFilterExpr_suffix fuel term).length_le
          have inRest' := (parseFilterExpr_suffix fuel' term').length_le
          rw [term, term']
          exact ih afterStop (by omega) (by omega)

/-- What a text with blanks at its end is parsed to, with any fuel that is enough. -/
theorem parseFilterFull_spaceAfter {text text' : List Char} (after : SpaceAfter text text')
    {fuel fuel' : Nat} (enough : text.length < fuel) (enough' : text'.length < fuel') :
    (match parseFilterExpr fuel' text' with
      | none => none
      | some (left, pos) => (parseFilterLoop fuel' left pos).map Prod.fst) =
    (match parseFilterExpr fuel text with
      | none => none
      | some (left, pos) => (parseFilterLoop fuel left pos).map Prod.fst) := by
  have afterTerm : SameRead (parseFilterExpr fuel text) (parseFilterExpr fuel' text') :=
    after.parseFilterExpr enough enough'
  rcases afterTerm.shape with ⟨term, term'⟩ | ⟨left, stop, stop', term, term', afterStop⟩
  · rw [term, term']
  · have inText := (parseFilterExpr_suffix fuel term).length_le
    have inText' := (parseFilterExpr_suffix fuel' term').length_le
    have afterLoop : SameRead (parseFilterLoop fuel left stop) (parseFilterLoop fuel' left stop') :=
      afterStop.parseFilterLoop (by omega) (by omega)
    rw [term, term']
    dsimp only
    rcases afterLoop.shape with ⟨loop, loop'⟩ | ⟨tree, _, _, loop, loop', -⟩
    · rw [loop, loop']
    · rw [loop, loop']
      rfl

theorem nblexFilterNew_spaceAfter {text text' : List Char} (after : SpaceAfter text text') :
    nblexFilterNew text' = nblexFilterNew text :=
  parseFilterFull_spaceAfter after (Nat.lt_succ_self _) (Nat.lt_succ_self _)

/-- Blanks around a text do not change its filter. -/
theorem nblexFilterNew_trim (text : List Char) :
    nblexFilterNew ((skipSpace text).rdropWhile isspace) = nblexFilterNew text := by
  have twice : skipSpace (skipSpace text) = skipSpace text := List.dropWhile_idempotent isspace text
  have term : parseFilterExpr (text.length + 1) (skipSpace text) =
      parseFilterExpr (text.length + 1) text := by
    rw [parseFilterExpr, parseFilterExpr, twice]
  have leading := parseFilterFull_spaceAfter (.refl (skipSpace text)) (Nat.lt_succ_self _)
    (Nat.lt_succ_of_le (skipSpace_length_le text))
  rw [term] at leading
  rw [← nblexFilterNew_spaceAfter (rdropWhile_spaceAfter (skipSpace text))]
  exact leading.symm

end Rest

end Nblex
