import Nblex.Core.Config.Document
import Nblex.Core.FilterEngine.Proofs.Chains

/-!
# Values in the configuration file

The loader reads a number with `atoi` and finds the unit of a size with `strstr`. What it makes of
the values a document writes is what they stand for.
-/

namespace Nblex

/-- `atoi` reads a number up to its end or to a character that is no digit. -/
theorem atoi_number (negative : Bool) (n : Nat) {rest : List Char} {value : String}
    (spelling : value.toList = signText negative ++ (Nat.toDigits 10 n ++ rest))
    (stop : ∀ c ∈ rest.head?, isdigit c = false)
    (lower : -2 ^ 31 ≤ signed negative (n : Int)) (upper : signed negative (n : Int) < 2 ^ 31) :
    atoi value = signed negative (n : Int) := by
  rw [atoi, spelling, strtol_number negative (toDigits_digits n) stop, decimalValue_toDigits,
    toInt32_clampLong lower upper]

theorem atoi_text (n : CInt) : atoi n.text = n.val := by
  obtain ⟨n, lower, upper⟩ := n
  cases n with
  | ofNat n =>
      have spelling : (toString (Int.ofNat n)).toList =
          signText false ++ (Nat.toDigits 10 n ++ []) := by
        rw [List.append_nil]
        exact Nat.toList_repr
      exact atoi_number false n spelling (fun c member => by cases member) lower upper
  | negSucc n =>
      have spelling : (toString (Int.negSucc n)).toList =
          signText true ++ (Nat.toDigits 10 (n + 1) ++ []) := by
        rw [List.append_nil, ← Nat.toList_repr]
        exact String.toList_append
      exact atoi_number true (n + 1) spelling (fun c member => by cases member) lower upper

/-- No needle that starts with a letter is found in digits. -/
theorem strstr_digits {digits : List Char} (all : ∀ c ∈ digits, isdigit c = true) (d : Char)
    (letter : isdigit d = false) (needle rest : List Char) :
    strstr (digits ++ rest) (d :: needle) = strstr rest (d :: needle) := by
  induction digits with
  | nil => rfl
  | cons c digits ih =>
      have other : (d == c) = false := by
        rw [beq_eq_false_iff_ne]
        rintro rfl
        rw [all d List.mem_cons_self] at letter
        cases letter
      have here : startsWith (c :: (digits ++ rest)) (d :: needle) = false := by
        rw [startsWith, List.isPrefixOf, other, Bool.false_and]
      rw [← ih (fun c member => all c (List.mem_cons_of_mem _ member))]
      simp only [strstr, List.cons_append, List.tails, List.find?_cons, here]

theorem ConfigSize.text_toList (size : ConfigSize) :
    size.text.toList = Nat.toDigits 10 size.count ++ size.unit.text.toList := by
  rw [← Nat.toList_repr]
  exact String.toList_append

theorem parseSize_text (size : ConfigSize) : parseSize size.text = size.value := by
  obtain ⟨count, unit, small⟩ := size
  have stop : ∀ c ∈ unit.text.toList.head?, isdigit c = false := by
    cases unit <;> simp [SizeUnit.text, isdigit]
  have number : atoi (ConfigSize.mk count unit small).text = count :=
    atoi_number false count (ConfigSize.text_toList _) stop
      (show (-2 ^ 31 : Int) ≤ count by omega) (show (count : Int) < 2 ^ 31 by omega)
  have found : ∀ d, isdigit d = false → ∀ needle,
      strstr (ConfigSize.mk count unit small).text.toList (d :: needle) =
        strstr unit.text.toList (d :: needle) := by
    intro d letter needle
    rw [ConfigSize.text_toList]
    exact strstr_digits (toDigits_digits count).2 d letter needle _
  have count64 : ((count : Int) % 2 ^ 64).toNat = count := by omega
  simp only [parseSize, number, count64, found 'G' (by decide), found 'M' (by decide),
    found 'K' (by decide), ConfigSize.value]
  cases unit with
  | bytes => simp [SizeUnit.text, SizeUnit.value, strstr, startsWith]
  | kilobytes =>
      simp [SizeUnit.text, SizeUnit.value, strstr, startsWith]
      omega
  | megabytes =>
      simp [SizeUnit.text, SizeUnit.value, strstr, startsWith]
      omega
  | gigabytes =>
      simp [SizeUnit.text, SizeUnit.value, strstr, startsWith]
      omega

end Nblex
