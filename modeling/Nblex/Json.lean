import Mathlib.Data.Rat.Defs

/-!
# JSON values

The part of jansson's `json_t` the engine uses. An object keeps its entries in insertion
order and holds a key once; `json_object_set` replaces the value in place. Reals are exact
rationals here: rounding of `double` is outside the model.
-/

namespace Nblex

/-- `json_t`, one constructor per `json_type`. -/
inductive Json where
  | null
  | bool (b : Bool)
  | integer (n : Int)
  | real (q : ℚ)
  | string (s : String)
  | array (items : List Json)
  | object (fields : List (String × Json))

namespace Json

/-- `json_is_object`. -/
def isObject : Json → Bool
  | .object _ => true
  | _ => false

/-- `json_is_integer`. -/
def isInteger : Json → Bool
  | .integer _ => true
  | _ => false

/-- `json_object_get`: `none` where jansson returns `NULL`, for a missing key and for a
    value that is not an object. -/
def get? : Json → String → Option Json
  | .object fields, key => (fields.find? (fun entry => entry.1 == key)).map Prod.snd
  | _, _ => none

/-- Set `key` among the entries of an object. -/
def setField (fields : List (String × Json)) (key : String) (value : Json) :
    List (String × Json) :=
  match fields with
  | [] => [(key, value)]
  | entry :: rest =>
      if entry.1 == key then (key, value) :: rest else entry :: setField rest key value

/-- `json_object_set_new`: nothing happens on a `NULL` value or on a non-object. -/
def set (obj : Json) (key : String) (value : Option Json) : Json :=
  match obj, value with
  | .object fields, some value => .object (setField fields key value)
  | _, _ => obj

@[simp] theorem isObject_object (fields : List (String × Json)) :
    (Json.object fields).isObject = true := rfl

/-- An object whose keys are distinct gives back each of its entries. -/
theorem get?_of_mem {fields : List (String × Json)} (distinct : (fields.map Prod.fst).Nodup)
    {key : String} {value : Json} (member : (key, value) ∈ fields) :
    (Json.object fields).get? key = some value := by
  induction fields with
  | nil => cases member
  | cons entry rest ih =>
      obtain ⟨fresh, distinctRest⟩ := List.nodup_cons.mp distinct
      rcases List.mem_cons.mp member with rfl | later
      · simp [get?]
      · have different : entry.1 ≠ key := by
          rintro rfl
          exact fresh (List.mem_map.mpr ⟨_, later, rfl⟩)
        have next := ih distinctRest later
        simpa [get?, List.find?_cons, different] using next

theorem get?_setField_self (fields : List (String × Json)) (key : String) (value : Json) :
    (Json.object (setField fields key value)).get? key = some value := by
  induction fields with
  | nil => simp [setField, get?]
  | cons entry rest ih =>
      simp only [setField]
      split
      · simp [get?]
      · next different =>
        simp only [get?, List.find?_cons, different] at ih ⊢
        exact ih

@[simp] theorem get?_set_self (fields : List (String × Json)) (key : String) (value : Json) :
    ((Json.object fields).set key (some value)).get? key = some value :=
  get?_setField_self fields key value

@[simp] theorem isObject_set (obj : Json) (key : String) (value : Option Json) :
    (obj.set key value).isObject = obj.isObject := by
  cases obj <;> cases value <;> rfl

theorem get?_set_of_isObject {obj : Json} (object : obj.isObject = true) (key : String)
    (value : Json) : (obj.set key (some value)).get? key = some value := by
  cases obj with
  | object fields => exact get?_set_self fields key value
  | null | bool | integer | real | string | array => cases object

theorem get?_setField_of_ne {key other : String} (different : key ≠ other)
    (fields : List (String × Json)) (value : Json) :
    (Json.object (setField fields key value)).get? other = (Json.object fields).get? other := by
  induction fields with
  | nil => simp [setField, get?, different]
  | cons entry rest ih =>
      simp only [setField]
      split
      · next same =>
        have same : entry.1 = key := by simpa using same
        simp [get?, same, different]
      · simp only [get?, List.find?_cons] at ih ⊢
        split
        · rfl
        · exact ih

/-- Setting a key leaves the others alone. -/
theorem get?_set_of_ne {key other : String} (different : key ≠ other) (obj : Json)
    (value : Option Json) : (obj.set key value).get? other = obj.get? other := by
  cases value with
  | none => cases obj <;> rfl
  | some value =>
      cases obj with
      | object fields => exact get?_setField_of_ne different fields value
      | null | bool | integer | real | string | array => rfl

theorem mem_keys_setField {fields : List (String × Json)} {key other : String} {value : Json} :
    other ∈ (setField fields key value).map Prod.fst ↔
      other = key ∨ other ∈ fields.map Prod.fst := by
  induction fields with
  | nil => simp [setField]
  | cons entry rest ih =>
      rw [setField]
      split
      · next same =>
        have same : entry.1 = key := by simpa using same
        simp [same]
      · rw [List.map_cons, List.mem_cons, ih, List.map_cons, List.mem_cons]
        exact or_left_comm

theorem nodup_keys_setField {fields : List (String × Json)} (distinct : (fields.map Prod.fst).Nodup)
    (key : String) (value : Json) : ((setField fields key value).map Prod.fst).Nodup := by
  induction fields with
  | nil => simp [setField]
  | cons entry rest ih =>
      obtain ⟨fresh, distinctRest⟩ := List.nodup_cons.mp distinct
      rw [setField]
      split
      · next same =>
        have same : entry.1 = key := by simpa using same
        exact List.nodup_cons.mpr ⟨same ▸ fresh, distinctRest⟩
      · next different =>
        have different : entry.1 ≠ key := by simpa using different
        refine List.nodup_cons.mpr ⟨fun member => ?_, ih distinctRest⟩
        rcases mem_keys_setField.mp member with same | member
        · exact different same
        · exact fresh member

/-- Set entries one after the other. -/
def setAll (entries fields : List (String × Json)) : List (String × Json) :=
  entries.foldl (fun fields entry => setField fields entry.1 entry.2) fields

theorem nodup_keys_setAll (entries : List (String × Json)) {fields : List (String × Json)}
    (distinct : (fields.map Prod.fst).Nodup) : ((setAll entries fields).map Prod.fst).Nodup := by
  induction entries generalizing fields with
  | nil => exact distinct
  | cons entry entries ih => exact ih (nodup_keys_setField distinct entry.1 entry.2)

theorem setField_fresh {fields : List (String × Json)} {key : String}
    (fresh : key ∉ fields.map Prod.fst) (value : Json) :
    setField fields key value = fields ++ [(key, value)] := by
  induction fields with
  | nil => rfl
  | cons entry rest ih =>
      rw [List.map_cons, List.mem_cons, not_or] at fresh
      have different : ¬(entry.1 == key) = true := by
        simpa using fun same : entry.1 = key => fresh.1 same.symm
      rw [setField, if_neg different, ih fresh.2, List.cons_append]

/-- Entries with distinct keys that are not there yet are appended in their order. -/
theorem setAll_fresh {entries fields : List (String × Json)}
    (distinct : ((fields ++ entries).map Prod.fst).Nodup) :
    setAll entries fields = fields ++ entries := by
  induction entries generalizing fields with
  | nil => exact (List.append_nil fields).symm
  | cons entry entries ih =>
      have fresh : entry.1 ∉ fields.map Prod.fst := by
        rw [List.map_append, List.map_cons] at distinct
        exact fun member => (List.nodup_append.mp distinct).2.2 _ member _ List.mem_cons_self rfl
      have shift : fields ++ entry :: entries = (fields ++ [entry]) ++ entries := by simp
      rw [setAll, List.foldl_cons, ← setAll, setField_fresh fresh, shift]
      exact ih (shift ▸ distinct)

/-- A key has the value that was set last for it. -/
theorem get?_setAll (entries fields : List (String × Json)) (key : String) :
    (Json.object (setAll entries fields)).get? key =
      ((Json.object entries.reverse).get? key).or ((Json.object fields).get? key) := by
  induction entries generalizing fields with
  | nil => rfl
  | cons entry entries ih =>
      have last : (Json.object (entry :: entries).reverse).get? key =
          ((Json.object entries.reverse).get? key).or ((Json.object [entry]).get? key) := by
        simp only [get?, List.reverse_cons, List.find?_append, Option.map_or]
      rw [setAll, List.foldl_cons, ← setAll, ih, last, Option.or_assoc]
      congr 1
      by_cases same : entry.1 = key
      · rw [← same, get?_setField_self]
        simp [get?]
      · rw [get?_setField_of_ne same]
        simp [get?, same]

@[simp] theorem set_none (obj : Json) (key : String) : obj.set key none = obj := by
  cases obj <;> rfl

end Json

/-- The recursion of `json_get_path`: the whole remaining path is tried as one key first,
    and only then its part up to the first dot. The fuel bounds the number of dots. -/
def jsonGetPathAux : Nat → Json → List Char → Option Json
  | 0, _, _ => none
  | fuel + 1, obj, path =>
      if obj.isObject then
        match obj.get? (String.ofList path) with
        | some direct => some direct
        | none =>
            match path.dropWhile (· ≠ '.') with
            | [] => none
            | _ :: rest =>
                match obj.get? (String.ofList (path.takeWhile (· ≠ '.'))) with
                | some nested =>
                    if nested.isObject then jsonGetPathAux fuel nested rest else none
                | none => none
      else none

/-- `json_get_path`. -/
def jsonGetPath (obj : Json) (path : String) : Option Json :=
  jsonGetPathAux (path.toList.length + 1) obj path.toList

/-- A key that is present under its full, possibly dotted, name is found directly. -/
theorem jsonGetPath_direct {obj value : Json} {path : String}
    (h : obj.get? path = some value) : jsonGetPath obj path = some value := by
  have object : obj.isObject = true := by
    cases obj <;> simp_all [Json.get?, Json.isObject]
  simp [jsonGetPath, jsonGetPathAux, object, h]

end Nblex
