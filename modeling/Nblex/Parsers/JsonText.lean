import Nblex.Json

/-!
# Texts in JSON values

What jansson makes of the texts and numbers that the log parsers and the dissectors read, and
`nblex_parse_json_line` of `src/parsers/json_parser.c`. The test for UTF-8 is a parameter, and so
are reading and writing whole values.
-/

namespace Nblex

/-- jansson's test that a C string is UTF-8. A text that is not makes no JSON string and is no key
    of an object. -/
class Jansson where
  utf8CheckString : List Char → Bool

/-- Every text is accepted. -/
@[reducible] def acceptingJansson : Jansson where
  utf8CheckString := fun _ => true

/-- jansson's `json_loads` and `json_dumps(root, JSON_COMPACT)`. A text is a C string; its
    characters are bytes. -/
class JanssonTexts where
  jsonLoads : List Char → Option Json
  jsonDumps : Json → Option (List Char)

/-- From here on a value rounds to an infinite `double`. -/
def doubleLimit : ℚ := (2 ^ 54 - 1) * 2 ^ 970

/-- `json_real`: `NULL` for an infinite value. -/
def jsonReal (value : ℚ) : Option Json :=
  if doubleLimit ≤ value ∨ value ≤ -doubleLimit then none else some (.real value)

/-- `json_string`. -/
def jsonString [Jansson] (value : List Char) : Option Json :=
  if Jansson.utf8CheckString value then some (.string (String.ofList value)) else none

/-- `nblex_parse_json_line`. -/
def nblexParseJsonLine [JanssonTexts] (line : List Char) : Option Json :=
  match JanssonTexts.jsonLoads line with
  | none => none
  | some root => if root.isObject then some root else none

/-- ASCII is UTF-8. -/
def Jansson.TakesAscii [Jansson] : Prop :=
  ∀ text : List Char, (∀ c ∈ text, c.toNat < 128) → Jansson.utf8CheckString text = true

theorem acceptingJansson_takesAscii : @Jansson.TakesAscii acceptingJansson := fun _ _ => rfl

theorem jsonString_ascii [Jansson] (ascii : Jansson.TakesAscii) {text : List Char}
    (chars : ∀ c ∈ text, c.toNat < 128) :
    jsonString text = some (.string (String.ofList text)) := if_pos (ascii text chars)

end Nblex
