import Nblex.Misc.CString
import Mathlib.Tactic.Common

/-!
# Pointers into terminated texts

A text in memory is its characters and a NUL behind them. A pointer is an index; a character is
read through it only from the text and the NUL, and any other read is a fault, as is a loop that
goes on for longer than the turns it is given. A pointer is described by the rest of the text from
there on, and the loops over a text by what they do to this rest.
-/

namespace Nblex

/-- What ends a run. -/
inductive Fault where
  | outside (index : Nat)
  | turns

/-- The terminating character. -/
def nul : Char := Char.ofNat 0

section Reads

variable (text : List Char)

/-- `*pos`. -/
def readAt (pos : Nat) : Except Fault Char :=
  if pos < text.length then .ok (text.getD pos nul)
  else if pos = text.length then .ok nul
  else .error (.outside pos)

/-- `*(pos - 1)`; there is nothing in front of the text. -/
def readBack (pos : Nat) : Except Fault Char :=
  if pos = 0 then .error (.outside pos) else readAt text (pos - 1)

/-- The string that a library function is given with a pointer: the function reads it up to the NUL
    at most. -/
def stringAt (pos : Nat) : Except Fault (List Char) :=
  if pos ≤ text.length then .ok (text.drop pos) else .error (.outside pos)

/-- `memcpy` of so many characters. -/
def copyFrom : Nat → Nat → Except Fault (List Char)
  | _, 0 => pure []
  | pos, count + 1 => do
      let c ← readAt text pos
      let rest ← copyFrom (pos + 1) count
      pure (c :: rest)

/-- `while (*pos && p(*pos)) pos++`. -/
def scanWhile (p : Char → Bool) : Nat → Nat → Except Fault Nat
  | 0, _ => .error .turns
  | turns + 1, pos => do
      let c ← readAt text pos
      if c ≠ nul ∧ p c = true then scanWhile p turns (pos + 1) else pure pos

/-- The comparison of `strncmp` and `strncasecmp` with a whole word: it ends at the first character
    that differs. -/
def matchesAt (norm : Char → Char) : Nat → List Char → Except Fault Bool
  | _, [] => pure true
  | pos, k :: word => do
      let c ← readAt text pos
      if norm c = norm k then matchesAt norm (pos + 1) word else pure false

/-- The first of some words that stands there, with its length and what belongs to it. -/
def firstMatch {α : Type} (pos : Nat) : List (List Char × α) → Except Fault (Option (α × Nat))
  | [] => pure none
  | (word, value) :: words => do
      if ← matchesAt text id pos word then pure (some (value, pos + word.length))
      else firstMatch pos words

end Reads

/-! ## Pointers -/

/-- Behind the pointer lies this rest of the text. -/
structure PointsAt (text : List Char) (pos : Nat) (rest : List Char) : Prop where
  inside : pos ≤ text.length
  drop : text.drop pos = rest

section Pointers

variable {text rest : List Char} {pos : Nat}

theorem ok_bind {α β : Type} (value : α) (next : α → Except Fault β) :
    (Except.ok value >>= next) = next value := rfl

theorem pure_eq_ok {α : Type} (value : α) : (pure value : Except Fault α) = .ok value := rfl

theorem pointsAt_start (text : List Char) : PointsAt text 0 text := ⟨Nat.zero_le _, rfl⟩

theorem PointsAt.length (points : PointsAt text pos rest) : pos + rest.length = text.length := by
  have inside := points.inside
  rw [← points.drop, List.length_drop]
  omega

theorem PointsAt.suffix (points : PointsAt text pos rest) : rest <:+ text :=
  points.drop ▸ List.drop_suffix pos text

/-- A pointer further on. -/
theorem PointsAt.advance (points : PointsAt text pos rest) {count : Nat}
    (enough : count ≤ rest.length) : PointsAt text (pos + count) (rest.drop count) := by
  have length := points.length
  refine ⟨by omega, ?_⟩
  rw [← points.drop, List.drop_drop]

theorem PointsAt.next {c : Char} (points : PointsAt text pos (c :: rest)) :
    PointsAt text (pos + 1) rest :=
  points.advance (by rw [List.length_cons]; omega)

/-- The pointer that a library function leaves. -/
theorem PointsAt.tail (points : PointsAt text pos rest) {tail : List Char} (part : tail <:+ rest) :
    PointsAt text (text.length - tail.length) tail := by
  obtain ⟨front, rfl⟩ := part
  have length := points.length
  rw [List.length_append] at length
  have back : text.length - tail.length = pos + front.length := by omega
  rw [back]
  refine ⟨by omega, ?_⟩
  rw [← List.drop_drop, points.drop, List.drop_left]

theorem PointsAt.read_cons {c : Char} (points : PointsAt text pos (c :: rest)) :
    readAt text pos = .ok c := by
  have length := points.length
  rw [List.length_cons] at length
  have first : text[pos]? = some c := by
    rw [← List.head?_drop, points.drop]
    rfl
  rw [readAt, if_pos (by omega), List.getD_eq_getElem?_getD, first]
  rfl

theorem PointsAt.read_nil (points : PointsAt text pos []) : readAt text pos = .ok nul := by
  have length := points.length
  rw [List.length_nil] at length
  rw [readAt, if_neg (by omega), if_pos (by omega)]

/-- A pointer into the text can be read through. -/
theorem PointsAt.read (points : PointsAt text pos rest) :
    readAt text pos = .ok (rest.headD nul) := by
  cases rest with
  | nil => exact points.read_nil
  | cons c rest => exact points.read_cons

theorem PointsAt.string (points : PointsAt text pos rest) : stringAt text pos = .ok rest := by
  rw [stringAt, if_pos points.inside, points.drop]

theorem PointsAt.copy (count : Nat) : ∀ {pos : Nat} {rest : List Char}, PointsAt text pos rest →
    count ≤ rest.length → copyFrom text pos count = .ok (rest.take count) := by
  induction count with
  | zero => exact fun _ _ => rfl
  | succ count ih =>
      intro pos rest points enough
      cases rest with
      | nil => exact absurd enough (Nat.not_succ_le_zero _)
      | cons c rest =>
          rw [copyFrom, points.read_cons, ok_bind,
            ih points.next (Nat.le_of_succ_le_succ enough), ok_bind]
          rfl

/-! ## Loops over a text without a NUL in it -/

variable (terminated : nul ∉ text)
include terminated

theorem PointsAt.ne_nul {c : Char} (points : PointsAt text pos (c :: rest)) : c ≠ nul := by
  rintro rfl
  exact terminated (points.suffix.subset List.mem_cons_self)

/-- The character at a pointer is the NUL at the end only. -/
theorem PointsAt.headD_eq_nul_iff (points : PointsAt text pos rest) :
    rest.headD nul = nul ↔ rest = [] := by
  cases rest with
  | nil => exact iff_of_true rfl rfl
  | cons c rest => exact iff_of_false (points.ne_nul terminated) (List.cons_ne_nil _ _)

theorem PointsAt.scanWhile (p : Char → Bool) (turns : Nat) : ∀ {pos : Nat} {rest : List Char},
    PointsAt text pos rest → rest.length < turns →
      Nblex.scanWhile text p turns pos = .ok (pos + (rest.takeWhile p).length) ∧
        PointsAt text (pos + (rest.takeWhile p).length) (rest.dropWhile p) := by
  induction turns with
  | zero => exact fun _ enough => absurd enough (Nat.not_lt_zero _)
  | succ turns ih =>
      intro pos rest points enough
      rw [Nblex.scanWhile, points.read, ok_bind]
      cases rest with
      | nil =>
          rw [if_neg (fun goesOn => goesOn.1 rfl)]
          exact ⟨rfl, points⟩
      | cons c rest =>
          rw [List.headD_cons]
          by_cases holds : p c = true
          · rw [if_pos ⟨points.ne_nul terminated, holds⟩, List.takeWhile_cons_of_pos holds,
              List.dropWhile_cons_of_pos holds, List.length_cons, ← Nat.add_assoc,
              Nat.add_right_comm]
            exact ih points.next (Nat.lt_of_succ_lt_succ enough)
          · rw [if_neg (fun goesOn => holds goesOn.2), List.takeWhile_cons_of_neg holds,
              List.dropWhile_cons_of_neg holds]
            exact ⟨rfl, points⟩

theorem PointsAt.skipSpace {turns : Nat} (points : PointsAt text pos rest)
    (enough : rest.length < turns) :
    ∃ pos', Nblex.scanWhile text isspace turns pos = .ok pos' ∧
      PointsAt text pos' (Nblex.skipSpace rest) := by
  obtain ⟨scanned, behind⟩ := points.scanWhile terminated isspace turns enough
  exact ⟨_, scanned, behind⟩

omit terminated in
/-- A word without the NUL is compared inside the text. -/
theorem PointsAt.matches (norm : Char → Char) (word : List Char) :
    ∀ {pos : Nat} {rest : List Char}, PointsAt text pos rest → norm nul ∉ word.map norm →
      matchesAt text norm pos word = .ok (startsWith (rest.map norm) (word.map norm)) := by
  induction word with
  | nil =>
      intro pos rest _ _
      simp [matchesAt, startsWith, pure_eq_ok]
  | cons k word ih =>
      intro pos rest points apart
      rw [matchesAt, points.read, ok_bind]
      rw [List.map_cons, List.mem_cons, not_or] at apart
      cases rest with
      | nil =>
          rw [List.headD_nil, if_neg apart.1]
          rfl
      | cons c rest =>
          rw [List.headD_cons]
          by_cases same : norm c = norm k
          · rw [if_pos same, ih points.next apart.2]
            simp [startsWith, same]
          · rw [if_neg same, List.map_cons, List.map_cons]
            have different : ¬norm k = norm c := fun other => same other.symm
            simp [startsWith, List.isPrefixOf, different, pure_eq_ok]

omit terminated in
theorem startsWith_length_le {word : List Char} (starts : startsWith rest word = true) :
    word.length ≤ rest.length := by
  obtain ⟨tail, rfl⟩ := startsWith_iff.mp starts
  rw [List.length_append]
  exact Nat.le_add_right _ _

omit terminated in
theorem PointsAt.firstMatch {α : Type} (points : PointsAt text pos rest)
    (words : List (List Char × α)) (apart : ∀ entry ∈ words, nul ∉ entry.1) :
    Nblex.firstMatch text pos words =
      .ok ((words.find? fun entry => startsWith rest entry.1).map fun entry =>
        (entry.2, pos + entry.1.length)) := by
  induction words with
  | nil => rfl
  | cons entry words ih =>
      obtain ⟨word, value⟩ := entry
      have compared := points.matches id word (by
        rw [List.map_id]
        exact apart _ List.mem_cons_self)
      rw [List.map_id, List.map_id] at compared
      rw [Nblex.firstMatch, compared, ok_bind, List.find?_cons]
      cases starts : startsWith rest word with
      | true => rfl
      | false => exact ih fun entry member => apart entry (List.mem_cons_of_mem _ member)

end Pointers

end Nblex
