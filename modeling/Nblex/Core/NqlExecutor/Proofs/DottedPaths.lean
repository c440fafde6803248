import Nblex.Core.NqlExecutor.Proofs.FieldPaths

/-!
# Nested and flat fields

An event can hold a field under its dotted name or behind the keys of nested objects. Where no key
has a dot in it, a dotted path leads through the keys it names, and it leads to the same values in
the flat object that has the leaves under their paths.
-/

namespace Nblex

/-- Follow keys through nested objects. -/
def Json.navigate : Json → List String → Option Json
  | value, [] => some value
  | value, key :: rest => (value.get? key).bind (·.navigate rest)

mutual

/-- The leaves of a value with the keys that lead to them. Everything but an object is a leaf. -/
def Json.leaves : Json → List (List String × Json)
  | .object fields => Json.leavesOf fields
  | .null => [([], .null)]
  | .bool b => [([], .bool b)]
  | .integer n => [([], .integer n)]
  | .real q => [([], .real q)]
  | .string s => [([], .string s)]
  | .array items => [([], .array items)]

/-- The leaves behind the entries of an object. -/
def Json.leavesOf : List (String × Json) → List (List String × Json)
  | [] => []
  | (key, value) :: rest =>
      value.leaves.map (fun leaf => (key :: leaf.1, leaf.2)) ++ Json.leavesOf rest

end

/-- Keys joined by dots. -/
def dottedName : List String → String
  | [] => ""
  | [key] => key
  | key :: rest => key ++ "." ++ dottedName rest

/-- The flat object: the leaves under their dotted names. -/
def Json.flattened (obj : Json) : Json :=
  .object (obj.leaves.map (fun leaf => (dottedName leaf.1, leaf.2)))

/-- No key has a dot in it, at any depth. -/
inductive Json.Dotless : Json → Prop where
  | object {fields : List (String × Json)} :
      (∀ entry ∈ fields, '.' ∉ entry.1.toList) → (∀ entry ∈ fields, entry.2.Dotless) →
      Json.Dotless (.object fields)
  | leaf {value : Json} : value.isObject = false → Json.Dotless value

theorem Json.Dotless.get? {obj value : Json} {key : String} (plain : obj.Dotless)
    (found : obj.get? key = some value) : '.' ∉ key.toList ∧ value.Dotless := by
  cases plain with
  | leaf notObject =>
      rw [Json.isObject_of_get? found] at notObject
      cases notObject
  | @object fields keys values =>
      obtain ⟨entry, there, rfl⟩ := Option.map_eq_some_iff.mp found
      have member := List.mem_of_find?_eq_some there
      have named : entry.1 = key := by simpa using List.find?_some there
      exact ⟨named ▸ keys entry member, values entry member⟩

theorem dottedName_cons (key next : String) (rest : List String) :
    (dottedName (key :: next :: rest)).toList =
      key.toList ++ '.' :: (dottedName (next :: rest)).toList := by
  simp [dottedName]

/-! ## Navigation -/

/-- On objects whose keys have no dots the recursion of `json_get_path` follows the keys. -/
theorem jsonGetPathAux_navigate (keys : List String) :
    ∀ {fuel : Nat} {obj : Json}, obj.isObject = true → obj.Dotless → keys ≠ [] →
      (∀ key ∈ keys, '.' ∉ key.toList) → (dottedName keys).toList.length < fuel →
      jsonGetPathAux fuel obj (dottedName keys).toList = obj.navigate keys := by
  induction keys with
  | nil => exact fun _ _ nonempty => absurd rfl nonempty
  | cons key rest ih =>
      intro fuel obj object plain _ dotless enough
      obtain ⟨fuel, rfl⟩ := Nat.exists_eq_add_one_of_ne_zero (Nat.ne_zero_of_lt enough)
      have noDot := dotless key List.mem_cons_self
      cases rest with
      | nil =>
          rw [dottedName, jsonGetPathAux, if_pos object, String.ofList_toList, Json.navigate]
          cases found : obj.get? key with
          | some value => rfl
          | none =>
              rw [dropWhile_noDot noDot]
              rfl
      | cons next rest =>
          have missing : obj.get? (String.ofList (dottedName (key :: next :: rest)).toList) =
              none := by
            rw [String.ofList_toList]
            cases found : obj.get? (dottedName (key :: next :: rest)) with
            | none => rfl
            | some value =>
                have noDot' := (plain.get? found).1
                rw [dottedName_cons] at noDot'
                exact absurd (by simp) noDot'
          rw [dottedName_cons] at missing enough ⊢
          rw [jsonGetPathAux_step fuel noDot object missing, String.ofList_toList, Json.navigate]
          cases found : obj.get? key with
          | none => rfl
          | some nested =>
              rw [Option.bind_some, Option.bind_some]
              by_cases inner : nested.isObject = true
              · rw [if_pos inner]
                refine ih inner (plain.get? found).2 (List.cons_ne_nil _ _) ?_ ?_
                · intro other member
                  exact dotless other (List.mem_cons_of_mem _ member)
                · rw [List.length_append, List.length_cons] at enough
                  omega
              · rw [if_neg inner, Json.navigate]
                cases step : nested.get? next with
                | none => rfl
                | some value => exact absurd (Json.isObject_of_get? step) inner

/-! ## Leaves -/

theorem leaves_of_not_object {value : Json} (leaf : value.isObject = false) :
    value.leaves = [([], value)] := by
  cases value with
  | object fields => cases leaf
  | null | bool | integer | real | string | array => simp [Json.leaves]

theorem leavesOf_append (before after : List (String × Json)) :
    Json.leavesOf (before ++ after) = Json.leavesOf before ++ Json.leavesOf after := by
  induction before with
  | nil => simp [Json.leavesOf]
  | cons entry before ih =>
      obtain ⟨key, value⟩ := entry
      simp [Json.leavesOf, ih]

/-- The first key of a leaf is a key of the object. -/
theorem mem_leavesOf {fields : List (String × Json)} {path : List String} {value : Json}
    (member : (path, value) ∈ Json.leavesOf fields) :
    ∃ entry ∈ fields, ∃ rest, path = entry.1 :: rest ∧ (rest, value) ∈ entry.2.leaves := by
  induction fields with
  | nil => simp [Json.leavesOf] at member
  | cons entry fields ih =>
      obtain ⟨key, nested⟩ := entry
      rw [Json.leavesOf, List.mem_append] at member
      rcases member with here | later
      · obtain ⟨⟨rest, value⟩, inside, same⟩ := List.mem_map.mp here
        obtain ⟨rfl, rfl⟩ := Prod.mk.inj same
        exact ⟨_, List.mem_cons_self, rest, rfl, inside⟩
      · obtain ⟨source, inside, rest⟩ := ih later
        exact ⟨source, List.mem_cons_of_mem _ inside, rest⟩

/-- A leaf that is reached by keys is the first one with these keys. -/
theorem find?_leaves (keys : List String) : ∀ {obj leaf : Json}, obj.navigate keys = some leaf →
    leaf.isObject = false →
    obj.leaves.find? (fun entry => decide (entry.1 = keys)) = some (keys, leaf) := by
  induction keys with
  | nil =>
      intro obj leaf reached isLeaf
      obtain rfl := Option.some.inj reached
      rw [leaves_of_not_object isLeaf]
      rfl
  | cons key rest ih =>
      intro obj leaf reached isLeaf
      obtain ⟨nested, found, inner⟩ := Option.bind_eq_some_iff.mp reached
      cases obj with
      | null | bool | integer | real | string | array => cases found
      | object fields =>
          obtain ⟨entry, there, rfl⟩ := Option.map_eq_some_iff.mp found
          obtain ⟨named, before, after, rfl, others⟩ := List.find?_eq_some_iff_append.mp there
          obtain ⟨key', value⟩ := entry
          obtain rfl : key' = key := by simpa using named
          rw [Json.leaves, leavesOf_append, Json.leavesOf]
          have skipped : (Json.leavesOf before).find? (fun entry => decide (entry.1 = key' :: rest))
              = none := by
            rw [List.find?_eq_none]
            rintro ⟨path, other⟩ member same
            obtain ⟨source, inside, tail, rfl, -⟩ := mem_leavesOf member
            have different := others source inside
            simp only [decide_eq_true_eq, List.cons.injEq] at same
            simp [same.1] at different
          have below : (fun entry : List String × Json => decide (entry.1 = key' :: rest)) ∘
              (fun entry : List String × Json => (key' :: entry.1, entry.2)) =
                fun entry => decide (entry.1 = rest) := by
            funext entry
            simp
          rw [List.find?_append, skipped, Option.none_or, List.find?_append, List.find?_map, below,
            ih inner isLeaf]
          rfl

/-! ## The flat object -/

theorem dotless_leaves (path : List String) : ∀ {obj value : Json}, obj.Dotless →
    (path, value) ∈ obj.leaves → ∀ key ∈ path, '.' ∉ key.toList := by
  induction path with
  | nil => exact fun _ _ => nofun
  | cons key rest ih =>
      intro obj value plain member
      cases plain with
      | leaf notObject =>
          rw [leaves_of_not_object notObject] at member
          simp at member
      | object keys values =>
          rw [Json.leaves] at member
          obtain ⟨entry, inside, tail, same, below⟩ := mem_leavesOf member
          obtain ⟨rfl, rfl⟩ := List.cons.inj same
          exact List.forall_mem_cons.mpr ⟨keys entry inside, ih (values entry inside) below⟩

theorem leaves_ne_nil {obj value : Json} (object : obj.isObject = true) {path : List String}
    (member : (path, value) ∈ obj.leaves) : path ≠ [] := by
  cases obj with
  | object fields =>
      rw [Json.leaves] at member
      obtain ⟨entry, -, rest, rfl, -⟩ := mem_leavesOf member
      exact List.cons_ne_nil _ _
  | null | bool | integer | real | string | array => cases object

/-- A dotted name has its keys only. -/
theorem dottedName_injective (keys : List String) : ∀ {others : List String}, keys ≠ [] →
    others ≠ [] → (∀ key ∈ keys, '.' ∉ key.toList) → (∀ key ∈ others, '.' ∉ key.toList) →
    dottedName keys = dottedName others → keys = others := by
  induction keys with
  | nil => exact fun nonempty => absurd rfl nonempty
  | cons key rest ih =>
      intro others _ nonempty dotless dotless' same
      cases others with
      | nil => exact absurd rfl nonempty
      | cons other tail =>
          have noDot := dotless key List.mem_cons_self
          have noDot' := dotless' other List.mem_cons_self
          have letters := congrArg String.toList same
          cases rest with
          | nil =>
              cases tail with
              | nil => exact congrArg ([·]) same
              | cons next tail =>
                  rw [dottedName_cons, dottedName] at letters
                  exact absurd (letters ▸ by simp) noDot
          | cons next rest =>
              cases tail with
              | nil =>
                  rw [dottedName_cons, dottedName] at letters
                  exact absurd (letters ▸ by simp) noDot'
              | cons next' tail =>
                  rw [dottedName_cons, dottedName_cons] at letters
                  have parts := split_at_dot noDot (dottedName (next :: rest)).toList
                  have parts' := split_at_dot noDot' (dottedName (next' :: tail)).toList
                  rw [letters] at parts
                  have keysSame := String.toList_inj.mp (parts.1.symm.trans parts'.1)
                  have restSame := String.toList_inj.mp
                    (List.cons.inj (parts.2.symm.trans parts'.2)).2
                  have tails : next :: rest = next' :: tail :=
                    ih (List.cons_ne_nil _ _) (List.cons_ne_nil _ _)
                      (fun key member => dotless key (List.mem_cons_of_mem _ member))
                      (fun key member => dotless' key (List.mem_cons_of_mem _ member)) restSame
                  rw [keysSame, tails]

/-- A leaf is in the flat object under the dotted name of the keys that lead to it. -/
theorem get?_flattened {obj leaf : Json} (object : obj.isObject = true) (plain : obj.Dotless)
    {keys : List String} (nonempty : keys ≠ []) (dotless : ∀ key ∈ keys, '.' ∉ key.toList)
    (reached : obj.navigate keys = some leaf) (isLeaf : leaf.isObject = false) :
    obj.flattened.get? (dottedName keys) = some leaf := by
  have first := find?_leaves keys reached isLeaf
  obtain ⟨-, before, after, split, others⟩ := List.find?_eq_some_iff_append.mp first
  have skipped : ∀ entry ∈ before, (dottedName entry.1 == dottedName keys) = false := by
    intro entry member
    have inside : entry ∈ obj.leaves := split ▸ List.mem_append_left _ member
    have different : entry.1 ≠ keys := by simpa using others entry member
    refine beq_eq_false_iff_ne.mpr fun same => different ?_
    exact dottedName_injective entry.1 (leaves_ne_nil object inside) nonempty
      (dotless_leaves entry.1 plain inside) dotless same
  rw [Json.flattened, Json.get?, List.find?_map, split, List.find?_append]
  rw [List.find?_eq_none.mpr (fun entry member => by simp [skipped entry member])]
  simp

/-- Where no key has a dot, `json_get_path` of a dotted name is the value that its keys lead to, and
    a leaf is the same in the flat object. -/
theorem jsonGetPath_dottedName {obj : Json} (object : obj.isObject = true) (plain : obj.Dotless)
    {keys : List String} (nonempty : keys ≠ []) (dotless : ∀ key ∈ keys, '.' ∉ key.toList) :
    jsonGetPath obj (dottedName keys) = obj.navigate keys ∧
      ∀ leaf, jsonGetPath obj (dottedName keys) = some leaf → leaf.isObject = false →
        obj.flattened.get? (dottedName keys) = some leaf ∧
          jsonGetPath obj.flattened (dottedName keys) = some leaf := by
  have navigated : jsonGetPath obj (dottedName keys) = obj.navigate keys :=
    jsonGetPathAux_navigate keys object plain nonempty dotless (Nat.lt_succ_self _)
  refine ⟨navigated, fun leaf found isLeaf => ?_⟩
  have flat := get?_flattened object plain nonempty dotless (navigated.symm.trans found) isLeaf
  exact ⟨flat, jsonGetPath_direct flat⟩

/-- `{"http": {"method": "GET"}}`. -/
def requestObject : Json := .object [("http", .object [("method", .string "GET")])]

/-- The method is reached by both keys. -/
theorem jsonGetPath_dottedName_request :
    jsonGetPath requestObject "http.method" = some (.string "GET") ∧
      requestObject.flattened.get? "http.method" = some (.string "GET") := by
  have plain : requestObject.Dotless := by
    refine .object (by simp) ?_
    intro entry member
    rw [List.mem_singleton.mp member]
    refine .object (by simp) ?_
    intro inner member'
    rw [List.mem_singleton.mp member']
    exact .leaf rfl
  obtain ⟨navigated, leaf⟩ := @jsonGetPath_dottedName requestObject rfl plain ["http", "method"]
    nofun (by simp)
  have found : jsonGetPath requestObject "http.method" = some (.string "GET") := navigated.trans rfl
  exact ⟨found, (leaf _ found rfl).1⟩

end Nblex
