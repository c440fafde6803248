import Nblex.Misc.TerminatedText

/-!
# Pointers into a buffer

A buffer of known length has no terminator, so that a character behind it is not read. The loops
over a buffer stop at a limit: its end, or a place that an earlier loop has found. Between a pointer
and the limit lies a part of the rest, and the loops are described by what they do to this part.
-/

namespace Nblex

section Reads

variable (text : List Char)

/-- `*pos`. -/
def readIn (pos : Nat) : Except Fault Char :=
  if pos < text.length then .ok (text.getD pos nul) else .error (.outside pos)

/-- `memcpy` of so many characters. -/
def copyIn : Nat → Nat → Except Fault (List Char)
  | _, 0 => pure []
  | pos, count + 1 => do
      let c ← readIn text pos
      let rest ← copyIn (pos + 1) count
      pure (c :: rest)

/-- `while (pos < limit && p(*pos)) pos++`. -/
def scanTo (p : Char → Bool) (limit : Nat) : Nat → Nat → Except Fault Nat
  | 0, _ => .error .turns
  | turns + 1, pos =>
      if pos < limit then do
        let c ← readIn text pos
        if p c then scanTo p limit turns (pos + 1) else pure pos
      else pure pos

end Reads

variable {text rest : List Char} {pos : Nat}

theorem PointsAt.readIn_cons {c : Char} (points : PointsAt text pos (c :: rest)) :
    readIn text pos = .ok c := by
  have length := points.length
  rw [List.length_cons] at length
  have read := points.read_cons
  rw [readAt, if_pos (by omega)] at read
  rw [readIn, if_pos (by omega), read]

theorem PointsAt.copyIn (part : List Char) : ∀ {pos : Nat} {rest : List Char},
    PointsAt text pos (part ++ rest) → Nblex.copyIn text pos part.length = .ok part := by
  induction part with
  | nil => exact fun _ => rfl
  | cons c part ih =>
      intro pos rest points
      rw [List.length_cons, Nblex.copyIn, points.readIn_cons, ok_bind, ih points.next, ok_bind]
      rfl

/-- A pointer behind the first part of the rest. -/
theorem PointsAt.behind {part : List Char} (points : PointsAt text pos (part ++ rest)) :
    PointsAt text (pos + part.length) rest := by
  have enough : part.length ≤ (part ++ rest).length := by simp
  have behind := points.advance enough
  rw [List.drop_left] at behind
  exact behind

/-- The loop stops inside the part that lies in front of the limit. -/
theorem PointsAt.scanTo (p : Char → Bool) (part : List Char) : ∀ {pos turns : Nat},
    PointsAt text pos (part ++ rest) → part.length < turns →
      Nblex.scanTo text p (pos + part.length) turns pos =
        .ok (pos + (part.takeWhile p).length) := by
  induction part with
  | nil =>
      intro pos turns points enough
      cases turns with
      | zero => exact absurd enough (Nat.not_lt_zero _)
      | succ turns =>
          have atLimit : ¬pos < pos + List.length ([] : List Char) := Nat.lt_irrefl pos
          rw [Nblex.scanTo, if_neg atLimit]
          rfl
  | cons c part ih =>
      intro pos turns points enough
      cases turns with
      | zero => exact absurd enough (Nat.not_lt_zero _)
      | succ turns =>
          have inside : pos < pos + (c :: part).length := by simp
          rw [Nblex.scanTo, if_pos inside, points.readIn_cons, ok_bind]
          cases holds : p c with
          | true =>
              have next := ih points.next (Nat.lt_of_succ_lt_succ enough)
              rw [List.takeWhile_cons_of_pos holds, List.length_cons, List.length_cons, if_pos rfl,
                Nat.add_comm part.length, ← Nat.add_assoc, next, Nat.add_right_comm, Nat.add_assoc]
          | false =>
              rw [List.takeWhile_cons_of_neg (Bool.eq_false_iff.mp holds),
                if_neg Bool.false_ne_true]
              rfl

end Nblex
