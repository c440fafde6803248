import Mathlib.Data.List.Basic
import Mathlib.Data.List.Forall2

/-!
# Lines

The non-empty parts of a list between separators, and what becomes of them when the list is read
in pieces. Cutting a list in two keeps its lines when the cut is beside a separator or an end, and
adds one otherwise; so the lines of the pieces are those of the whole exactly when every cut is
clean.
-/

namespace Nblex.Lines

variable {α : Type*} [DecidableEq α] {sep : α}

/-- The non-empty parts of a list between separators. -/
def lines (sep : α) (xs : List α) : List (List α) :=
  (xs.splitOn sep).filter (fun line => decide (line ≠ []))

/-- The list is empty or ends with a separator. -/
def EndsLine (sep : α) (xs : List α) : Prop := ∀ x ∈ xs.getLast?, x = sep

/-- The list is empty or starts with a separator. -/
def StartsLine (sep : α) (xs : List α) : Prop := ∀ x ∈ xs.head?, x = sep

/-- A cut between two lists that is not inside a line. -/
def CleanCut (sep : α) (xs ys : List α) : Prop := EndsLine sep xs ∨ StartsLine sep ys

instance (sep : α) (xs ys : List α) : Decidable (CleanCut sep xs ys) :=
  inferInstanceAs (Decidable ((∀ x ∈ xs.getLast?, x = sep) ∨ ∀ x ∈ ys.head?, x = sep))

/-! ## One cut -/

@[simp] theorem lines_nil : lines sep ([] : List α) = [] := by
  rw [lines, List.splitOn_nil]
  rfl

@[simp] theorem lines_cons_sep (xs : List α) : lines sep (sep :: xs) = lines sep xs := by
  rw [lines, List.splitOn_cons_eq_if_modifyHead, if_pos (beq_self_eq_true sep)]
  rfl

/-- The first part of a split is empty just when the list is or starts with a separator. -/
theorem splitOn_head (xs : List α) :
    ∃ first rest, xs.splitOn sep = first :: rest ∧ (first = [] ↔ StartsLine sep xs) := by
  cases xs with
  | nil => exact ⟨[], [], List.splitOn_nil sep, by simp [StartsLine]⟩
  | cons x xs =>
      rw [List.splitOn_cons_eq_if_modifyHead]
      by_cases here : x = sep
      · rw [if_pos (beq_iff_eq.mpr here)]
        exact ⟨[], _, rfl, by simp [StartsLine, here]⟩
      · rw [if_neg (by simpa using here)]
        obtain ⟨first, rest, split⟩ := List.exists_cons_of_ne_nil (List.splitOn_ne_nil sep xs)
        rw [split]
        exact ⟨x :: first, rest, rfl, by simp [StartsLine, here]⟩

/-- An element before a separator or the end is a line of its own. -/
theorem lines_cons_start {x : α} (other : x ≠ sep) {xs : List α} (start : StartsLine sep xs) :
    lines sep (x :: xs) = [x] :: lines sep xs := by
  obtain ⟨first, rest, split, empty⟩ := @splitOn_head _ _ sep xs
  obtain rfl := empty.mpr start
  simp [lines, List.splitOn_cons_eq_if_modifyHead, other, split]

/-- An element before another one belongs to its line. -/
theorem lines_cons_inside {x : α} (other : x ≠ sep) {xs : List α}
    (inside : ¬ StartsLine sep xs) :
    ∃ first rest, lines sep xs = first :: rest ∧ lines sep (x :: xs) = (x :: first) :: rest := by
  obtain ⟨first, rest, split, empty⟩ := @splitOn_head _ _ sep xs
  have nonempty : first ≠ [] := fun isEmpty => inside (empty.mp isEmpty)
  refine ⟨first, rest.filter (fun line => decide (line ≠ [])), ?_, ?_⟩
  · simp [lines, split, nonempty]
  · simp [lines, List.splitOn_cons_eq_if_modifyHead, other, split]

omit [DecidableEq α] in
theorem endsLine_cons {x y : α} {xs : List α} :
    EndsLine sep (x :: y :: xs) ↔ EndsLine sep (y :: xs) := by
  rw [EndsLine, EndsLine, List.getLast?_cons_cons]

/-- A clean cut keeps the lines; any other cut makes two of one. -/
theorem lines_append (xs ys : List α) :
    (CleanCut sep xs ys → lines sep (xs ++ ys) = lines sep xs ++ lines sep ys) ∧
      (¬ CleanCut sep xs ys →
        (lines sep (xs ++ ys)).length + 1 = (lines sep xs).length + (lines sep ys).length) := by
  induction xs with
  | nil =>
      refine ⟨fun _ => by simp, fun cut => ?_⟩
      exact absurd (Or.inl (by simp [EndsLine])) cut
  | cons x xs ih =>
      cases xs with
      | nil =>
          by_cases here : x = sep
          · subst here
            refine ⟨fun _ => by simp, fun cut => ?_⟩
            exact absurd (Or.inl (by simp [EndsLine])) cut
          · have single : lines sep [x] = [[x]] := by
              rw [lines_cons_start here (by simp [StartsLine]), lines_nil]
            have open_ : ¬ EndsLine sep [x] := by simpa [EndsLine] using here
            rw [single, List.singleton_append]
            constructor
            · intro clean
              have start : StartsLine sep ys := clean.resolve_left open_
              rw [lines_cons_start here start]
              rfl
            · intro cut
              have inside : ¬ StartsLine sep ys := fun start => cut (Or.inr start)
              obtain ⟨first, rest, below, above⟩ := lines_cons_inside here inside
              rw [above, below]
              simp only [List.length_cons, List.length_nil]
              omega
      | cons y xs =>
          have sameCut : CleanCut sep (x :: y :: xs) ys ↔ CleanCut sep (y :: xs) ys := by
            rw [CleanCut, CleanCut, endsLine_cons]
          rw [sameCut]
          obtain ⟨keeps, splits⟩ := ih
          by_cases here : x = sep
          · subst here
            rw [List.cons_append, lines_cons_sep, lines_cons_sep]
            exact ⟨keeps, splits⟩
          · by_cases next : y = sep
            · have start : ∀ zs : List α, StartsLine sep (y :: zs) := by
                intro zs
                simp [StartsLine, next]
              have startWhole : StartsLine sep (y :: xs ++ ys) := start (xs ++ ys)
              rw [List.cons_append, lines_cons_start here (start xs),
                lines_cons_start here startWhole]
              constructor
              · intro clean
                rw [keeps clean]
                rfl
              · intro cut
                have count := splits cut
                simp only [List.length_cons]
                omega
            · have inside : ∀ zs : List α, ¬ StartsLine sep (y :: zs) := by
                intro zs
                simp [StartsLine, next]
              obtain ⟨first, rest, below, above⟩ := lines_cons_inside here (inside xs)
              obtain ⟨first', rest', below', above'⟩ := lines_cons_inside here (inside (xs ++ ys))
              rw [List.cons_append] at keeps splits
              rw [List.cons_append, List.cons_append, above, above']
              rw [below, below'] at keeps splits
              constructor
              · intro clean
                have both := List.cons.inj (keeps clean)
                rw [both.1, both.2]
                rfl
              · intro cut
                have count := splits cut
                simpa using count

theorem lines_append_clean {xs ys : List α} (clean : CleanCut sep xs ys) :
    lines sep (xs ++ ys) = lines sep xs ++ lines sep ys := (lines_append xs ys).1 clean

theorem lines_append_length_le (xs ys : List α) :
    (lines sep (xs ++ ys)).length ≤ (lines sep xs).length + (lines sep ys).length := by
  by_cases clean : CleanCut sep xs ys
  · have whole := congrArg List.length (lines_append_clean clean)
    rw [List.length_append] at whole
    exact Nat.le_of_eq whole
  · have count := (lines_append xs ys).2 clean
    omega

/-- The lines are as many as those of the two parts only when the cut is clean. -/
theorem cleanCut_of_length {xs ys : List α}
    (all : (lines sep xs).length + (lines sep ys).length ≤ (lines sep (xs ++ ys)).length) :
    CleanCut sep xs ys := by
  by_contra cut
  have count := (lines_append xs ys).2 cut
  omega

/-! ## Many cuts -/

/-- No cut between the parts of a list is inside a line. -/
def AllClean (sep : α) : List (List α) → Prop
  | [] => True
  | part :: parts => CleanCut sep part parts.flatten ∧ AllClean sep parts

theorem lines_flatten_clean {parts : List (List α)} (clean : AllClean sep parts) :
    lines sep parts.flatten = parts.flatMap (lines sep) := by
  induction parts with
  | nil => exact lines_nil
  | cons part parts ih =>
      rw [List.flatten_cons, lines_append_clean clean.1, ih clean.2, List.flatMap_cons]

theorem lines_flatten_length_le (parts : List (List α)) :
    (lines sep parts.flatten).length ≤ (parts.flatMap (lines sep)).length := by
  induction parts with
  | nil => simp
  | cons part parts ih =>
      rw [List.flatten_cons, List.flatMap_cons, List.length_append]
      exact Nat.le_trans (lines_append_length_le _ _) (Nat.add_le_add_left ih _)

/-- The parts have as many lines as the whole only when all cuts are clean. -/
theorem allClean_of_length {parts : List (List α)}
    (all : (parts.flatMap (lines sep)).length ≤ (lines sep parts.flatten).length) :
    AllClean sep parts := by
  induction parts with
  | nil => trivial
  | cons part parts ih =>
      rw [List.flatten_cons, List.flatMap_cons, List.length_append] at all
      have whole := @lines_append_length_le _ _ sep part parts.flatten
      have rest := @lines_flatten_length_le _ _ sep parts
      exact ⟨cleanCut_of_length (by omega), ih (by omega)⟩

/-! ## Bounded pieces -/

/-- The first piece of a list and the rest: up to the first separator and with it, and no longer
    than the limit. -/
def takePiece (sep : α) : Nat → List α → List α × List α
  | 0, xs => ([], xs)
  | _ + 1, [] => ([], [])
  | limit + 1, x :: xs =>
      if x = sep then ([x], xs)
      else (x :: (takePiece sep limit xs).1, (takePiece sep limit xs).2)

theorem takePiece_append (limit : Nat) (xs : List α) :
    (takePiece sep limit xs).1 ++ (takePiece sep limit xs).2 = xs := by
  induction limit generalizing xs with
  | zero => rfl
  | succ limit ih =>
      cases xs with
      | nil => rfl
      | cons x xs =>
          rw [takePiece]
          by_cases here : x = sep
          · rw [if_pos here]
            rfl
          · rw [if_neg here, List.cons_append, ih xs]

theorem takePiece_length_le (limit : Nat) (xs : List α) :
    (takePiece sep limit xs).1.length ≤ limit := by
  induction limit generalizing xs with
  | zero => exact Nat.le_refl 0
  | succ limit ih =>
      cases xs with
      | nil => exact Nat.zero_le _
      | cons x xs =>
          rw [takePiece]
          by_cases here : x = sep
          · rw [if_pos here]
            exact Nat.succ_le_succ (Nat.zero_le _)
          · rw [if_neg here]
            exact Nat.succ_le_succ (ih xs)

/-- A piece of a list that is not empty is not empty. -/
theorem takePiece_ne_nil {limit : Nat} (positive : 0 < limit) {xs : List α} (more : xs ≠ []) :
    (takePiece sep limit xs).1 ≠ [] := by
  cases limit with
  | zero => exact absurd positive (Nat.lt_irrefl 0)
  | succ limit =>
      cases xs with
      | nil => exact absurd rfl more
      | cons x xs =>
          rw [takePiece]
          by_cases here : x = sep
          · rw [if_pos here]
            exact List.cons_ne_nil _ _
          · rw [if_neg here]
            exact List.cons_ne_nil _ _

/-- A piece is a list without separators, with or without one at its end; without one it is
    either as long as the limit or all there is. -/
theorem takePiece_shape (limit : Nat) (xs : List α) :
    ∃ line, sep ∉ line ∧ ((takePiece sep limit xs).1 = line ++ [sep] ∨
      ((takePiece sep limit xs).1 = line ∧
        (line.length = limit ∨ (takePiece sep limit xs).2 = []))) := by
  induction limit generalizing xs with
  | zero => exact ⟨[], List.not_mem_nil, Or.inr ⟨rfl, Or.inl rfl⟩⟩
  | succ limit ih =>
      cases xs with
      | nil => exact ⟨[], List.not_mem_nil, Or.inr ⟨rfl, Or.inr rfl⟩⟩
      | cons x xs =>
          rw [takePiece]
          by_cases here : x = sep
          · rw [if_pos here, here]
            exact ⟨[], List.not_mem_nil, Or.inl rfl⟩
          · rw [if_neg here]
            obtain ⟨line, free, piece⟩ := ih xs
            refine ⟨x :: line, ?_, ?_⟩
            · intro member
              rcases List.mem_cons.mp member with same | member
              · exact here same.symm
              · exact free member
            · rcases piece with whole | ⟨whole, stops⟩
              · left
                rw [whole, List.cons_append]
              · right
                refine ⟨by rw [whole], ?_⟩
                rcases stops with full | last
                · exact Or.inl (congrArg (· + 1) full)
                · exact Or.inr last

/-- The lines of a list without separators. -/
theorem lines_of_not_mem {line : List α} (free : sep ∉ line) :
    lines sep line = if line = [] then [] else [line] := by
  rw [lines, List.splitOn_eq_singleton free]
  by_cases empty : line = []
  · simp [empty]
  · simp [empty]

theorem lines_terminated {line : List α} (free : sep ∉ line) :
    lines sep (line ++ [sep]) = if line = [] then [] else [line] := by
  rw [lines, List.splitOn_append_cons_self_of_not_mem free, List.splitOn_nil]
  by_cases empty : line = []
  · simp [empty]
  · simp [empty]

/-- Terminated lines one after the other. -/
theorem lines_flatMap_terminated {texts : List (List α)}
    (each : ∀ text ∈ texts, text ≠ [] ∧ sep ∉ text) :
    lines sep (texts.flatMap fun text => text ++ [sep]) = texts := by
  induction texts with
  | nil => exact lines_nil
  | cons text texts ih =>
      obtain ⟨nonempty, free⟩ := each text List.mem_cons_self
      have ends : EndsLine sep (text ++ [sep]) := by
        intro x last
        rw [List.getLast?_concat] at last
        exact (Option.some.inj last).symm
      rw [List.flatMap_cons, (lines_append _ _).1 (.inl ends), lines_terminated free,
        if_neg nonempty, ih fun other member => each other (List.mem_cons_of_mem _ member)]
      rfl

/-- The pieces a list is read in. -/
inductive Pieces (sep : α) (limit : Nat) : List α → List (List α) → Prop where
  | done : Pieces sep limit [] []
  | piece {xs : List α} {pieces : List (List α)} (more : xs ≠ [])
      (rest : Pieces sep limit (takePiece sep limit xs).2 pieces) :
      Pieces sep limit xs ((takePiece sep limit xs).1 :: pieces)

theorem Pieces.flatten {limit : Nat} {xs : List α} {pieces : List (List α)}
    (read : Pieces sep limit xs pieces) : pieces.flatten = xs := by
  induction read with
  | done => rfl
  | piece more rest ih => rw [List.flatten_cons, ih, takePiece_append]

/-- Reading within the limit. -/
theorem Pieces.short {limit : Nat} {xs : List α} {pieces : List (List α)}
    (read : Pieces sep limit xs pieces) :
    ∀ line ∈ pieces.flatMap (lines sep), line.length ≤ limit := by
  induction read with
  | done =>
      intro line member
      cases member
  | @piece xs pieces more rest ih =>
      intro line member
      rw [List.flatMap_cons] at member
      rcases List.mem_append.mp member with here | later
      · obtain ⟨text, free, shape⟩ := @takePiece_shape _ _ sep limit xs
        have bound := @takePiece_length_le _ _ sep limit xs
        have isText : line = text := by
          rcases shape with whole | ⟨whole, -⟩
          · rw [whole, lines_terminated free] at here
            split at here
            · cases here
            · exact List.mem_singleton.mp here
          · rw [whole, lines_of_not_mem free] at here
            split at here
            · cases here
            · exact List.mem_singleton.mp here
        rw [isText]
        rcases shape with whole | ⟨whole, -⟩
        · rw [whole, List.length_append] at bound
          exact Nat.le_trans (Nat.le_add_right _ _) bound
        · rwa [whole] at bound
      · exact ih line later

/-- A line that goes on behind a cut is longer than what is before the cut. -/
theorem lines_longer {line : List α} (free : sep ∉ line) {xs : List α}
    (inside : ¬ StartsLine sep xs) :
    ∃ first rest, lines sep (line ++ xs) = first :: rest ∧ line.length < first.length := by
  induction line with
  | nil =>
      obtain ⟨first, rest, split, empty⟩ := @splitOn_head _ _ sep xs
      have nonempty : first ≠ [] := fun isEmpty => inside (empty.mp isEmpty)
      refine ⟨first, rest.filter (fun line => decide (line ≠ [])), ?_, ?_⟩
      · simp [lines, split, nonempty]
      · exact List.length_pos_iff.mpr nonempty
  | cons x line ih =>
      have other : x ≠ sep := fun same => free (same ▸ List.mem_cons_self)
      have free' : sep ∉ line := fun member => free (List.mem_cons_of_mem x member)
      have inside' : ¬ StartsLine sep (line ++ xs) := by
        cases line with
        | nil => exact inside
        | cons y line =>
            intro start
            exact free' (start y rfl ▸ List.mem_cons_self)
      obtain ⟨first, rest, whole, longer⟩ := ih free'
      obtain ⟨first', rest', below, above⟩ := lines_cons_inside other inside'
      rw [whole] at below
      obtain ⟨rfl, rfl⟩ := List.cons.inj below
      exact ⟨x :: first, rest, above, Nat.succ_lt_succ longer⟩

/-- When no line is longer than the limit, no piece ends inside a line. -/
theorem Pieces.allClean {limit : Nat} {xs : List α} {pieces : List (List α)}
    (read : Pieces sep limit xs pieces)
    (short : ∀ line ∈ lines sep xs, line.length ≤ limit) : AllClean sep pieces := by
  induction read with
  | done => trivial
  | @piece xs pieces more rest ih =>
      have whole := @takePiece_append _ _ sep limit xs
      have clean : CleanCut sep (takePiece sep limit xs).1 (takePiece sep limit xs).2 := by
        obtain ⟨text, free, shape⟩ := @takePiece_shape _ _ sep limit xs
        rcases shape with ended | ⟨same, full | last⟩
        · left
          rw [ended]
          simp [EndsLine]
        · right
          by_contra inside
          rw [same] at whole
          obtain ⟨first, others, split, longer⟩ := lines_longer free inside
          rw [whole] at split
          have bound := short first (split ▸ List.mem_cons_self)
          omega
        · right
          rw [last]
          simp [StartsLine]
      refine ⟨rest.flatten.symm ▸ clean, ih ?_⟩
      intro line member
      apply short
      rw [← whole, lines_append_clean clean]
      exact List.mem_append_right _ member

/-! ## Reading in parts -/

/-- A list comes in parts and each part is read in pieces. The lines of the pieces are those of
    the whole exactly when no part ends inside a line and no line is longer than the limit. -/
theorem lines_pieces_iff {limit : Nat} {parts : List (List α)}
    {pieces : List (List (List α))} (read : List.Forall₂ (Pieces sep limit) parts pieces) :
    pieces.flatten.flatMap (lines sep) = lines sep parts.flatten ↔
      AllClean sep parts ∧ ∀ line ∈ lines sep parts.flatten, line.length ≤ limit := by
  constructor
  · intro same
    have fewer : (parts.flatMap (lines sep)).length ≤
        (pieces.flatten.flatMap (lines sep)).length := by
      clear same
      induction read with
      | nil => exact Nat.le_refl _
      | @cons part ps parts pieces here rest ih =>
          rw [List.flatMap_cons, List.flatten_cons, List.flatMap_append, List.length_append,
            List.length_append]
          have one := @lines_flatten_length_le _ _ sep ps
          rw [here.flatten] at one
          exact Nat.add_le_add one ih
    refine ⟨allClean_of_length (same ▸ fewer), ?_⟩
    rw [← same]
    clear same fewer
    induction read with
    | nil =>
        intro line member
        cases member
    | @cons part ps parts pieces here rest ih =>
        intro line member
        rw [List.flatten_cons, List.flatMap_append] at member
        rcases List.mem_append.mp member with first | later
        · exact here.short line first
        · exact ih line later
  · rintro ⟨clean, short⟩
    rw [lines_flatten_clean clean] at short ⊢
    clear clean
    induction read with
    | nil => rfl
    | @cons part ps parts pieces here rest ih =>
        rw [List.flatMap_cons] at short
        have shortHere : ∀ line ∈ lines sep part, line.length ≤ limit :=
          fun line member => short line (List.mem_append_left _ member)
        have cleanHere := here.allClean shortHere
        rw [List.flatten_cons, List.flatMap_append, List.flatMap_cons,
          ih (fun line member => short line (List.mem_append_right _ member)),
          ← lines_flatten_clean cleanHere, here.flatten]

end Nblex.Lines
