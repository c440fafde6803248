import Mathlib.Data.List.TakeWhile
import Nblex.Core.NqlExecutor.Aggregate

/-!
# Field references

The filter engine looks a field up as one key of the event, `json_get_path` also follows its dots
into nested objects. The two agree when the field is a key of the event itself, and when its dots
lead nowhere.
-/

namespace Nblex

/-- The components of a path lead from object to object to a key of the last one. The last key may
    have dots of its own. -/
inductive NestedKey : Json → List Char → Prop where
  | key {obj nested value : Json} {name rest : List Char} (noDot : '.' ∉ name)
      (found : obj.get? (String.ofList name) = some nested)
      (last : nested.get? (String.ofList rest) = some value) : NestedKey obj (name ++ '.' :: rest)
  | deeper {obj nested : Json} {name rest : List Char} (noDot : '.' ∉ name)
      (found : obj.get? (String.ofList name) = some nested)
      (inner : NestedKey nested rest) : NestedKey obj (name ++ '.' :: rest)

/-- The comparison of `evaluate_filter_expr` with the value it has found. -/
def compareFound [Pcre2] (expr : FilterExpr) (found : Option Json) : Bool :=
  match found with
  | none => false
  | some fieldValue =>
      match expr.op with
      | .eq => fieldEquals fieldValue expr.value
      | .ne => !fieldEquals fieldValue expr.value
      | .lt | .le | .gt | .ge => fieldOrdered expr.op fieldValue expr.value
      | .patMatch => (fieldMatches fieldValue expr.regexCode).getD false
      | .patNmatch => ((fieldMatches fieldValue expr.regexCode).map (!·)).getD false
      | .isIn | .contains => false

/-- A field means the same to the filter engine and to the aggregation: one value or none, which
    every comparison is about, and which is shown as the group of the events that a `where` clause
    on the field selects. -/
structure SameReference [Pcre2] (data : Json) (field : String) : Prop where
  value : data.get? field = jsonGetPath data field
  compared : ∀ expr : FilterExpr, expr.field = field →
    evaluateFilterExpr expr data = compareFound expr (jsonGetPath data field)
  shown : ∀ (query : Aggregate) (expr : FilterExpr) (event : Event), expr.field = field →
    query.whereFilter = some (.expr expr) → query.groupByFields = [field] →
    event.data = some data → whereAccepts query event = true →
    ∃ value, data.get? field = some value ∧ compareFound expr (some value) = true ∧
      extractGroupKeys query.groupByFields event = some [groupKeyText (some value)]

theorem Json.isObject_of_get? {obj value : Json} {key : String}
    (found : obj.get? key = some value) :
    obj.isObject = true := by
  cases obj with
  | object fields => rfl
  | null | bool | integer | real | string | array => cases found

/-! ## Where the dots lead -/

theorem NestedKey.isObject {obj : Json} {path : List Char} (nested : NestedKey obj path) :
    obj.isObject = true := by
  cases nested with
  | key noDot found last => exact Json.isObject_of_get? found
  | deeper noDot found inner => exact Json.isObject_of_get? found

/-- The first component of a path and what follows its dot. -/
theorem split_at_dot {name : List Char} (noDot : '.' ∉ name) (rest : List Char) :
    (name ++ '.' :: rest).takeWhile (· ≠ '.') = name ∧
      (name ++ '.' :: rest).dropWhile (· ≠ '.') = '.' :: rest := by
  have all : ∀ c ∈ name, decide (c ≠ '.') = true := by
    intro c member
    apply decide_eq_true
    rintro rfl
    exact noDot member
  constructor
  · rw [List.takeWhile_append_of_pos all]
    simp
  · rw [List.dropWhile_append_of_pos all]
    simp

theorem dropWhile_noDot {path : List Char} (noDot : '.' ∉ path) :
    path.dropWhile (· ≠ '.') = [] := by
  rw [List.dropWhile_eq_nil_iff]
  intro c member
  apply decide_eq_true
  rintro rfl
  exact noDot member

/-- `json_get_path` at a dot, where the path is no key itself. -/
theorem jsonGetPathAux_step (fuel : Nat) {obj : Json} {name rest : List Char}
    (noDot : '.' ∉ name) (object : obj.isObject = true)
    (missing : obj.get? (String.ofList (name ++ '.' :: rest)) = none) :
    jsonGetPathAux (fuel + 1) obj (name ++ '.' :: rest) =
      (obj.get? (String.ofList name)).bind
        (fun nested => if nested.isObject then jsonGetPathAux fuel nested rest else none) := by
  obtain ⟨taken, dropped⟩ := split_at_dot noDot rest
  rw [jsonGetPathAux, if_pos object, missing, taken, dropped]
  cases obj.get? (String.ofList name) with
  | none => rfl
  | some nested => rfl

theorem nestedKey_step {obj : Json} {name rest : List Char} (noDot : '.' ∉ name) :
    NestedKey obj (name ++ '.' :: rest) ↔
      ∃ nested, obj.get? (String.ofList name) = some nested ∧
        ((∃ value, nested.get? (String.ofList rest) = some value) ∨ NestedKey nested rest) := by
  constructor
  · intro nestedKey
    generalize path : name ++ '.' :: rest = joined at nestedKey
    have same : ∀ {name' rest' : List Char}, '.' ∉ name' →
        name ++ '.' :: rest = name' ++ '.' :: rest' → name = name' ∧ rest = rest' := by
      intro name' rest' noDot' joined
      have parts := split_at_dot noDot rest
      have parts' := split_at_dot noDot' rest'
      rw [joined] at parts
      exact ⟨parts.1.symm.trans parts'.1, (List.cons.inj (parts.2.symm.trans parts'.2)).2⟩
    cases nestedKey with
    | key noDot' found last =>
        obtain ⟨rfl, rfl⟩ := same noDot' path
        exact ⟨_, found, Or.inl ⟨_, last⟩⟩
    | deeper noDot' found inner =>
        obtain ⟨rfl, rfl⟩ := same noDot' path
        exact ⟨_, found, Or.inr inner⟩
  · rintro ⟨nested, found, ⟨value, last⟩ | inner⟩
    · exact .key noDot found last
    · exact .deeper noDot found inner

/-- `json_get_path` finds a value exactly when the path is a key or leads to a nested one. -/
theorem jsonGetPathAux_isSome (fuel : Nat) :
    ∀ (obj : Json) (path : List Char), path.length < fuel →
      ((∃ value, jsonGetPathAux fuel obj path = some value) ↔
        (∃ value, obj.get? (String.ofList path) = some value) ∨ NestedKey obj path) := by
  induction fuel with
  | zero =>
      intro obj path enough
      exact absurd enough (Nat.not_lt_zero _)
  | succ fuel ih =>
      intro obj path enough
      by_cases object : obj.isObject = true
      · cases direct : obj.get? (String.ofList path) with
        | some value =>
            have found : jsonGetPathAux (fuel + 1) obj path = some value := by
              rw [jsonGetPathAux, if_pos object, direct]
            exact ⟨fun _ => Or.inl ⟨value, rfl⟩, fun _ => ⟨value, found⟩⟩
        | none =>
            by_cases dotted : '.' ∈ path
            · obtain ⟨name, rest, rfl, noDot⟩ := List.eq_append_cons_of_mem dotted
              have shorter : rest.length < fuel := by
                simp only [List.length_append, List.length_cons] at enough
                omega
              rw [jsonGetPathAux_step fuel noDot object direct, nestedKey_step noDot]
              cases obj.get? (String.ofList name) with
              | none => simp
              | some nested =>
                  have inner := ih nested rest shorter
                  by_cases nestedObject : nested.isObject = true
                  · simpa [nestedObject] using inner
                  · have noKey : ∀ value, nested.get? (String.ofList rest) ≠ some value :=
                      fun value found => nestedObject (Json.isObject_of_get? found)
                    have noNested : ¬ NestedKey nested rest :=
                      fun nestedKey => nestedObject nestedKey.isObject
                    simp [nestedObject, noKey, noNested]
            · have noNested : ¬ NestedKey obj path := by
                rintro (⟨noDot, found, last⟩ | ⟨noDot, found, inner⟩)
                · exact dotted (by simp)
                · exact dotted (by simp)
              have missing : jsonGetPathAux (fuel + 1) obj path = none := by
                rw [jsonGetPathAux, if_pos object, direct, dropWhile_noDot dotted]
              simp [missing, noNested]
      · have missing : jsonGetPathAux (fuel + 1) obj path = none := by
          rw [jsonGetPathAux, if_neg object]
        have noKey : ∀ value, obj.get? (String.ofList path) ≠ some value :=
          fun value found => object (Json.isObject_of_get? found)
        have noNested : ¬ NestedKey obj path := fun nestedKey => object nestedKey.isObject
        simp [missing, noKey, noNested]

theorem jsonGetPath_isSome (data : Json) (field : String) :
    (∃ value, jsonGetPath data field = some value) ↔
      (∃ value, data.get? field = some value) ∨ NestedKey data field.toList := by
  have found := jsonGetPathAux_isSome (field.toList.length + 1) data field.toList
    (Nat.lt_succ_self _)
  rw [String.ofList_toList] at found
  exact found

/-! ## The two lookups -/

theorem get?_eq_jsonGetPath_iff (data : Json) (field : String) :
    data.get? field = jsonGetPath data field ↔
      (∃ value, data.get? field = some value) ∨ ¬ NestedKey data field.toList := by
  have found := jsonGetPath_isSome data field
  constructor
  · intro same
    by_cases nested : NestedKey data field.toList
    · obtain ⟨value, isValue⟩ := found.mpr (Or.inr nested)
      exact Or.inl ⟨value, same.trans isValue⟩
    · exact Or.inr nested
  · rintro (⟨value, direct⟩ | flat)
    · rw [direct, jsonGetPath_direct direct]
    · cases direct : data.get? field with
      | some value => rw [jsonGetPath_direct direct]
      | none =>
          cases path : jsonGetPath data field with
          | none => rfl
          | some value =>
              rcases found.mp ⟨value, path⟩ with ⟨value', direct'⟩ | nested
              · rw [direct] at direct'
                cases direct'
              · exact absurd nested flat

theorem evaluateFilterExpr_compareFound [Pcre2] (expr : FilterExpr) (data : Json) :
    evaluateFilterExpr expr data = compareFound expr (data.get? expr.field) := rfl

/-- A field means the same to filters and aggregations exactly when it is a key of the event or its
    dots lead to no key of a nested object. -/
theorem sameReference_iff [Pcre2] (data : Json) (field : String) :
    SameReference data field ↔
      (∃ value, data.get? field = some value) ∨ ¬ NestedKey data field.toList := by
  rw [← get?_eq_jsonGetPath_iff]
  constructor
  · intro same
    exact same.value
  · intro same
    refine ⟨same, ?_, ?_⟩
    · rintro expr rfl
      rw [evaluateFilterExpr_compareFound, same]
    · rintro query expr event rfl isWhere groupBy carried accepts
      have selected : compareFound expr (data.get? expr.field) = true := by
        rw [whereAccepts, isWhere] at accepts
        simp only [nblexFilterMatches, carried] at accepts
        exact accepts
      cases found : data.get? expr.field with
      | none =>
          rw [found] at selected
          cases selected
      | some value =>
          refine ⟨value, rfl, found ▸ selected, ?_⟩
          rw [extractGroupKeys, carried, groupBy, ← found, same]
          rfl

/-- An event with the nested field `log.level`. -/
def nestedLevel : Json := .object [("log", .object [("level", .string "ERROR")])]

/-- The filter `log.level == "ERROR"` does not match an event whose field `log.level` is shown as
    `ERROR`. -/
theorem nestedLevel_differs :
    let _ := literalPcre2
    nestedLevel.get? "log.level" = none ∧
      groupKeyText (jsonGetPath nestedLevel "log.level") = "ERROR" ∧
      evaluateFilterExpr ⟨"log.level", .eq, .string "ERROR", none⟩ nestedLevel = false ∧
      compareFound ⟨"log.level", .eq, .string "ERROR", none⟩
        (jsonGetPath nestedLevel "log.level") = true ∧
      ¬ SameReference nestedLevel "log.level" := by
  have found : groupKeyText (jsonGetPath nestedLevel "log.level") = "ERROR" := by decide
  refine ⟨rfl, found, rfl, by decide, ?_⟩
  intro same
  have direct := @SameReference.value literalPcre2 _ _ same
  rw [← direct] at found
  revert found
  decide

end Nblex
