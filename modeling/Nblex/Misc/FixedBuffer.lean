import Mathlib.Data.List.Basic

/-!
# Texts in buffers of a fixed size

`snprintf` cuts what does not fit, and so do appends at the end of what is there. A sequence of
appends leaves what one cut of the whole text would leave. Texts that are joined by a separator stay
exact as long as each of them and the whole fit.
-/

namespace Nblex

/-- `snprintf` into a buffer of `size` characters: one place is left for the NUL. -/
def snprintf (size : Nat) (text : List Char) : List Char := text.take (size - 1)

/-- `snprintf` at the end of a text in a buffer. -/
def snprintfAt (size : Nat) (buffer text : List Char) : List Char :=
  buffer ++ snprintf (size - buffer.length) text

/-- Texts joined by a separator. -/
def joined (separator : List Char) : List (List Char) → List Char
  | [] => []
  | text :: later => text ++ later.flatMap fun next => separator ++ next

theorem snprintfAt_snprintf (size : Nat) (text more : List Char) :
    snprintfAt size (snprintf size text) more = snprintf size (text ++ more) := by
  rw [snprintfAt, snprintf, snprintf, snprintf, List.take_append, List.length_take]
  congr 2
  omega

theorem joined_concat (separator : List Char) {texts : List (List Char)} (notEmpty : texts ≠ [])
    (text : List Char) :
    joined separator (texts ++ [text]) = joined separator texts ++ (separator ++ text) := by
  cases texts with
  | nil => exact absurd rfl notEmpty
  | cons first later => simp [joined]

/-- Cutting the parts does not make the whole longer, and makes it shorter if a part is cut. -/
theorem flatMap_take_length (separator : List Char) (limit : Nat) (texts : List (List Char)) :
    ((texts.map (·.take limit)).flatMap fun next => separator ++ next).length ≤
        (texts.flatMap fun next => separator ++ next).length ∧
      ((texts.flatMap fun next => separator ++ next).length ≤
          ((texts.map (·.take limit)).flatMap fun next => separator ++ next).length →
        ∀ text ∈ texts, text.length ≤ limit) := by
  induction texts with
  | nil => exact ⟨Nat.le_refl _, fun _ => nofun⟩
  | cons text texts ih =>
      obtain ⟨shorter, exact'⟩ := ih
      simp only [List.map_cons, List.flatMap_cons, List.length_append, List.length_take]
      refine ⟨by omega, fun longer other member => ?_⟩
      rcases List.mem_cons.mp member with rfl | member
      · omega
      · exact exact' (by omega) other member

theorem joined_take_length (separator : List Char) (limit : Nat) (texts : List (List Char)) :
    (joined separator (texts.map (·.take limit))).length ≤ (joined separator texts).length ∧
      ((joined separator texts).length ≤ (joined separator (texts.map (·.take limit))).length →
        ∀ text ∈ texts, text.length ≤ limit) := by
  cases texts with
  | nil => exact ⟨Nat.le_refl _, fun _ => nofun⟩
  | cons text texts =>
      obtain ⟨shorter, exact'⟩ := flatMap_take_length separator limit texts
      simp only [List.map_cons, joined, List.length_append, List.length_take]
      refine ⟨by omega, fun longer other member => ?_⟩
      rcases List.mem_cons.mp member with rfl | member
      · omega
      · exact exact' (by omega) other member

/-- What the buffers hold is the joined text just in case nothing is cut. -/
theorem snprintf_joined_iff (separator : List Char) (size partSize : Nat) (positive : 0 < size)
    (partPositive : 0 < partSize) (texts : List (List Char)) :
    snprintf size (joined separator (texts.map (snprintf partSize))) = joined separator texts ↔
      (∀ text ∈ texts, text.length < partSize) ∧ (joined separator texts).length < size := by
  have parts : texts.map (snprintf partSize) = texts.map (·.take (partSize - 1)) := rfl
  obtain ⟨shorter, exact'⟩ := joined_take_length separator (partSize - 1) texts
  rw [parts]
  constructor
  · intro same
    have lengths := congrArg List.length same
    rw [snprintf, List.length_take] at lengths
    refine ⟨fun text member => ?_, by omega⟩
    have fits := exact' (by omega) text member
    omega
  · rintro ⟨each, whole⟩
    have uncut : texts.map (·.take (partSize - 1)) = texts := by
      refine (List.map_congr_left fun text member => ?_).trans (List.map_id texts)
      have fits := each text member
      exact List.take_of_length_le (by omega)
    rw [uncut, snprintf]
    exact List.take_of_length_le (by omega)

end Nblex
