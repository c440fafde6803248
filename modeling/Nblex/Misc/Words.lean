import Nblex.Misc.CString

/-!
# Words of printable text

The loops that scan a C string word by word, and what they make of a text of printable ASCII.
-/

namespace Nblex

/-- A word up to the next blank: `while (*end && !isspace(*end)) end++;` -/
def wordAt (pos : List Char) : List Char := pos.takeWhile fun c => !isspace c

/-- The position behind the word. -/
def wordEnd (pos : List Char) : List Char := pos.dropWhile fun c => !isspace c

/-- A printable character that is not a blank. -/
def IsGraph (c : Char) : Prop := 32 < c.toNat ∧ c.toNat < 127

/-- A printable character. -/
def IsPrint (c : Char) : Prop := 32 ≤ c.toNat ∧ c.toNat < 127

instance (c : Char) : Decidable (IsGraph c) := inferInstanceAs (Decidable (_ ∧ _))

instance (c : Char) : Decidable (IsPrint c) := inferInstanceAs (Decidable (_ ∧ _))

theorem IsGraph.print {c : Char} (graph : IsGraph c) : IsPrint c := ⟨graph.1.le, graph.2⟩

theorem IsPrint.ascii {c : Char} (print : IsPrint c) : c.toNat < 128 := Nat.lt_succ_of_lt print.2

/-- A printable character is none of the control characters. -/
theorem IsPrint.ne {c d : Char} (print : IsPrint c) (control : d.toNat < 32) : c ≠ d := by
  rintro rfl
  exact absurd print.1 (Nat.not_le_of_lt control)

theorem IsGraph.visible {c : Char} (graph : IsGraph c) : isspace c = false := by
  have lower := graph.1
  have notBlank : c ≠ ' ' := by
    rintro rfl
    exact absurd lower (by decide)
  have notControl : ¬ c.toNat ≤ 13 := by omega
  simp [isspace, notBlank, notControl]

theorem IsPrint.graph {c : Char} (print : IsPrint c) (notBlank : c ≠ ' ') : IsGraph c :=
  ⟨lt_of_le_of_ne print.1 fun same => notBlank (Char.toNat_inj.mp same.symm), print.2⟩

/-- A word of printable characters. -/
def IsWord (word : List Char) : Prop := word ≠ [] ∧ ∀ c ∈ word, IsGraph c

theorem IsWord.visible {word : List Char} (isWord : IsWord word) : ∀ c ∈ word, isspace c = false :=
  fun c member => (isWord.2 c member).visible

theorem IsWord.print {word : List Char} (isWord : IsWord word) : ∀ c ∈ word, IsPrint c :=
  fun c member => (isWord.2 c member).print

/-- The loop stops behind the word. -/
theorem wordAt_append {word rest : List Char} (visible : ∀ c ∈ word, isspace c = false)
    (ends : BlankOrEnd rest) : wordAt (word ++ rest) = word ∧ wordEnd (word ++ rest) = rest := by
  have all : ∀ c ∈ word, (!isspace c) = true := by
    intro c member
    rw [visible c member]
    rfl
  exact takeWhile_stop all ends.stops

/-- A space in front of a word is skipped, and nothing of the word. -/
theorem skipSpace_word {word : List Char} (notEmpty : word ≠ [])
    (visible : ∀ c ∈ word, isspace c = false) (rest : List Char) :
    skipSpace (' ' :: (word ++ rest)) = word ++ rest := by
  rw [skipSpace_blank]
  cases word with
  | nil => exact absurd rfl notEmpty
  | cons c word => exact skipSpace_of_head _ (visible c List.mem_cons_self)

/-- A space in front of a text that starts with no space of its own. -/
theorem skipSpace_print {text : List Char} (print : ∀ c ∈ text, IsPrint c)
    (start : text.head? ≠ some ' ') : skipSpace (' ' :: text) = text := by
  rw [skipSpace_blank]
  cases text with
  | nil => rfl
  | cons c rest =>
      have notBlank : c ≠ ' ' := fun same => start (congrArg some same)
      exact skipSpace_of_head rest ((print c List.mem_cons_self).graph notBlank).visible

end Nblex
