import Nblex.Core.NqlExecutor.Aggregate
import Nblex.Parsers.NqlParser
import Mathlib.Data.List.Nodup

/-!
# The names of metrics

A result has one entry for each function with a value as long as no two of them have the same name.
Names are made of the kind of the function, the rounded percentile and the field, and cut to 255
characters; the name of a sum is its field.
-/

namespace Nblex

/-! ## The entries of a result -/

/-- The entries that the functions put into `metrics`, in their order. -/
def metricEntries (funcs : List AggFunc) (bucket : Bucket) : List (String × Json) :=
  funcs.filterMap (fun func => (aggFuncValue bucket func).map (fun value =>
    (aggFuncName func, value)))

theorem foldl_set_metricEntries (bucket : Bucket) (funcs : List AggFunc) :
    ∀ fields : List (String × Json),
      funcs.foldl (fun metrics func => metrics.set (aggFuncName func) (aggFuncValue bucket func))
        (Json.object fields) = .object (Json.setAll (metricEntries funcs bucket) fields) := by
  induction funcs with
  | nil => exact fun _ => rfl
  | cons func funcs ih =>
      intro fields
      rw [List.foldl_cons, metricEntries]
      cases value : aggFuncValue bucket func with
      | none =>
          rw [Json.set_none, ih, List.filterMap_cons_none (by rw [value]; rfl)]
          rfl
      | some value' =>
          have entry := List.filterMap_cons_some (l := funcs)
            (f := fun func => (aggFuncValue bucket func).map (fun v => (aggFuncName func, v)))
            (congrArg (Option.map _) value)
          rw [entry]
          exact ih _

theorem aggMetrics_eq (funcs : List AggFunc) (bucket : Bucket) :
    aggMetrics funcs bucket = .object (Json.setAll (metricEntries funcs bucket) []) :=
  foldl_set_metricEntries bucket funcs []

/-- The result has the entries of its functions, if and only if their names are distinct. -/
theorem aggMetrics_entries_iff (funcs : List AggFunc) (bucket : Bucket) :
    aggMetrics funcs bucket = .object (metricEntries funcs bucket) ↔
      ((metricEntries funcs bucket).map Prod.fst).Nodup := by
  rw [aggMetrics_eq]
  constructor
  · intro same
    have distinct := @Json.nodup_keys_setAll (metricEntries funcs bucket) [] List.nodup_nil
    rwa [Json.object.inj same] at distinct
  · intro distinct
    exact congrArg Json.object (@Json.setAll_fresh _ [] distinct)

/-! ## Names -/

/-- The letters of a name. -/
def nameLetters (func : AggFunc) : List Char :=
  let field := (func.field.getD "").toList
  match func.type with
  | .count => ['c', 'o', 'u', 'n', 't']
  | .sum => field
  | .avg => 'a' :: 'v' :: 'g' :: '_' :: field.take 251
  | .min => 'm' :: 'i' :: 'n' :: '_' :: field.take 251
  | .max => 'm' :: 'a' :: 'x' :: '_' :: field.take 251
  | .percentile =>
      'p' :: ((formatDouble0 func.percentile).toList ++ '_' :: field).take 254
  | .distinct => 'd' :: 'i' :: 's' :: 't' :: 'i' :: 'n' :: 'c' :: 't' :: '_' :: field.take 246

theorem aggFuncName_toList (func : AggFunc) : (aggFuncName func).toList = nameLetters func := by
  unfold aggFuncName nameLetters
  cases func.type with
  | count => exact String.toList_ofList
  | sum => rfl
  | avg | min | max | percentile | distinct => simp [metricName]

/-- A function that `parse_agg_function` makes: `count()` has no argument, the others have a field,
    and only `percentile` has a percentile. -/
structure AggFunc.Formed (func : AggFunc) : Prop where
  field : func.field = none ↔ func.type = .count
  percentile : func.type ≠ .percentile → func.percentile = 0

/-- Two functions of one type have names that begin with the same text, and their fields agree in
    the first `left` characters, which is all that is left of them. -/
def FieldsCut (a b : AggFunc) (left : Nat) : Prop :=
  ∃ f g, a.field = some f ∧ b.field = some g ∧ f.toList.take left = g.toList.take left

/-- Functions that are given one name. A sum is given the name of its field. Two functions of
    another type have fields that agree in the characters that there is room for; so have two
    percentiles that are rounded to the same text, and percentiles whose texts leave no room. -/
inductive NameClash : AggFunc → AggFunc → Prop where
  | sum {a b : AggFunc} : a.type = .sum → a.field = some (aggFuncName b) → NameClash a b
  | short {a b : AggFunc} : a.type = b.type → a.type = .avg ∨ a.type = .min ∨ a.type = .max →
      FieldsCut a b 251 → NameClash a b
  | distinct {a b : AggFunc} : a.type = .distinct → b.type = .distinct →
      FieldsCut a b 246 → NameClash a b
  | percentile {a b : AggFunc} : a.type = .percentile → b.type = .percentile →
      formatDouble0 a.percentile = formatDouble0 b.percentile →
      FieldsCut a b (253 - (formatDouble0 a.percentile).toList.length) → NameClash a b
  | digits {a b : AggFunc} : a.type = .percentile → b.type = .percentile →
      254 ≤ (formatDouble0 a.percentile).toList.length →
      254 ≤ (formatDouble0 b.percentile).toList.length →
      (formatDouble0 a.percentile).toList.take 254 = (formatDouble0 b.percentile).toList.take 254 →
      NameClash a b

/-- Texts of two parts with a separator between them that is not in the first parts, cut to the
    same length: the first parts are the same, or they fill both texts. -/
theorem take_separated {sep : Char} : ∀ {n : Nat} {d e f g : List Char}, sep ∉ d → sep ∉ e →
    ((d ++ sep :: f).take n = (e ++ sep :: g).take n ↔
      d = e ∧ f.take (n - 1 - d.length) = g.take (n - 1 - d.length) ∨
        n ≤ d.length ∧ n ≤ e.length ∧ d.take n = e.take n) := by
  intro n
  induction n with
  | zero => simp
  | succ n ih =>
      intro d e f g freshD freshE
      cases d with
      | nil =>
          cases e with
          | nil => simp
          | cons c e =>
              have different : sep ≠ c := fun same => freshE (same ▸ List.mem_cons_self)
              simp [different]
      | cons c d =>
          cases e with
          | nil =>
              have different : c ≠ sep := fun same => freshD (same ▸ List.mem_cons_self)
              simp [different]
          | cons c' e =>
              have restD : sep ∉ d := fun member => freshD (List.mem_cons_of_mem _ member)
              have restE : sep ∉ e := fun member => freshE (List.mem_cons_of_mem _ member)
              have next := @ih d e f g restD restE
              simp only [List.cons_append, List.take_succ_cons, List.cons.injEq, next,
                List.length_cons, Nat.add_le_add_iff_right]
              have room : n + 1 - 1 - (d.length + 1) = n - 1 - d.length := by omega
              rw [room]
              grind

/-- The text of a rounded percentile has no underscore in it. -/
theorem underscore_not_mem_formatFixed0 (q : ℚ) : '_' ∉ (formatFixed0 q).toList := by
  have digits : ∀ n : Nat, '_' ∉ (toString n).toList := by
    intro n member
    simp at member
  unfold formatFixed0
  dsimp only
  rw [String.toList_append, List.mem_append, not_or]
  refine ⟨?_, digits _⟩
  split
  · simp
  · simp

theorem underscore_not_mem_formatDouble0 (x : Double) : '_' ∉ (formatDouble0 x).toList := by
  cases x with
  | finite q => exact underscore_not_mem_formatFixed0 q
  | infinity negative => cases negative <;> decide
  | nan negative => cases negative <;> decide

section Clash

variable {a b : AggFunc}

theorem AggFunc.Formed.some_field (formed : a.Formed) (type : a.type ≠ .count) :
    ∃ f, a.field = some f := by
  cases field : a.field with
  | none => exact absurd (formed.field.mp field) type
  | some f => exact ⟨f, rfl⟩

theorem NameClash.same (clash : NameClash a b) : nameLetters a = nameLetters b := by
  cases clash with
  | sum type field =>
      rw [← aggFuncName_toList b]
      simp [nameLetters, type, field]
  | short type kind cut =>
      obtain ⟨f, g, fieldA, fieldB, agree⟩ := cut
      rcases kind with kind | kind | kind
      all_goals
        rw [kind] at type
        simp only [nameLetters, kind, ← type, fieldA, fieldB, Option.getD_some, agree]
  | distinct typeA typeB cut =>
      obtain ⟨f, g, fieldA, fieldB, agree⟩ := cut
      simp only [nameLetters, typeA, typeB, fieldA, fieldB, Option.getD_some, agree]
  | percentile typeA typeB same cut =>
      obtain ⟨f, g, fieldA, fieldB, agree⟩ := cut
      have texts := (take_separated (n := 254) (underscore_not_mem_formatDouble0 a.percentile)
        (underscore_not_mem_formatDouble0 b.percentile)).mpr (.inl ⟨congrArg _ same, agree⟩)
      simp only [nameLetters, typeA, typeB, fieldA, fieldB, Option.getD_some, texts]
  | digits typeA typeB longA longB agree =>
      have texts : ∀ f g : List Char, _ := fun f g =>
        (take_separated (f := f) (g := g) (n := 254) (underscore_not_mem_formatDouble0 a.percentile)
          (underscore_not_mem_formatDouble0 b.percentile)).mpr (.inr ⟨longA, longB, agree⟩)
      simp only [nameLetters, typeA, typeB]
      exact congrArg _ (texts _ _)

/-- Names that begin with the kind of the function tell the kinds apart. -/
theorem type_of_same (notSumA : a.type ≠ .sum) (notSumB : b.type ≠ .sum)
    (same : nameLetters a = nameLetters b) : a.type = b.type := by
  unfold nameLetters at same
  cases typeA : a.type with
  | sum => exact absurd typeA notSumA
  | count | avg | min | max | percentile | distinct =>
      cases typeB : b.type with
      | sum => exact absurd typeB notSumB
      | count | avg | min | max | percentile | distinct =>
          first
            | rfl
            | simp [typeA, typeB] at same

/-- A sum with the name of another function clashes with it. -/
theorem clash_of_sum (formed : a.Formed) (type : a.type = .sum)
    (same : nameLetters a = nameLetters b) : NameClash a b := by
  obtain ⟨f, field⟩ := formed.some_field (by simp [type])
  have names : aggFuncName a = aggFuncName b :=
    String.toList_inj.mp ((aggFuncName_toList a).trans (same.trans (aggFuncName_toList b).symm))
  refine .sum type ?_
  rw [← names, field]
  simp [aggFuncName, type, field]

/-- Functions of a query with the same name clash, unless they are the same. -/
theorem clash_of_same (formedA : a.Formed) (formedB : b.Formed)
    (same : nameLetters a = nameLetters b) : a = b ∨ NameClash a b ∨ NameClash b a := by
  by_cases sumA : a.type = .sum
  · exact .inr (.inl (clash_of_sum formedA sumA same))
  by_cases sumB : b.type = .sum
  · exact .inr (.inr (clash_of_sum formedB sumB same.symm))
  have type := type_of_same sumA sumB same
  by_cases count : a.type = .count
  · left
    have fieldA := formedA.field.mpr count
    have fieldB := formedB.field.mpr (type ▸ count)
    have percentileA := formedA.percentile (by simp [count])
    have percentileB := formedB.percentile (by simp [← type, count])
    obtain ⟨typeA, _, _⟩ := a
    obtain ⟨typeB, _, _⟩ := b
    simp_all
  right
  left
  obtain ⟨f, fieldA⟩ := formedA.some_field count
  obtain ⟨g, fieldB⟩ := formedB.some_field (type ▸ count)
  unfold nameLetters at same
  rw [← type, fieldA, fieldB] at same
  cases typeA : a.type with
  | count => exact absurd typeA count
  | sum => exact absurd typeA sumA
  | avg | min | max =>
      refine .short type (by simp [typeA]) ⟨f, g, fieldA, fieldB, ?_⟩
      simpa [typeA] using same
  | distinct =>
      refine .distinct typeA (type ▸ typeA) ⟨f, g, fieldA, fieldB, ?_⟩
      simpa [typeA] using same
  | percentile =>
      have texts := same
      simp only [typeA, List.cons.injEq, true_and, Option.getD_some] at texts
      rcases (take_separated (underscore_not_mem_formatDouble0 a.percentile)
        (underscore_not_mem_formatDouble0 b.percentile)).mp texts with ⟨rounded, cut⟩ | full
      · exact .percentile typeA (type ▸ typeA) (String.toList_inj.mp rounded)
          ⟨f, g, fieldA, fieldB, cut⟩
      · exact .digits typeA (type ▸ typeA) full.1 full.2.1 full.2.2

end Clash

/-! ## Queries -/

namespace NqlParser

theorem andThen_ok {α β : Type} {read : Parsed α} {next : α → List Char → Parsed β}
    {result : β × List Char} (ok : andThen read next = .ok result) :
    ∃ value pos, read = .ok (value, pos) ∧ next value pos = .ok result := by
  cases read with
  | error message => cases ok
  | ok first => exact ⟨first.1, first.2, rfl, ok⟩

theorem closeWith_ok {α : Type} {message : String} {value : α} {pos : List Char}
    {result : α × List Char} (ok : closeWith message value pos = .ok result) :
    result.1 = value := by
  unfold closeWith at ok
  split at ok
  · exact (congrArg Prod.fst (Except.ok.inj ok)).symm
  · cases ok

/-- What `parse_agg_function` makes is formed. -/
theorem parseAggFunction_formed {pos rest : List Char} {func : AggFunc}
    (ok : parseAggFunction pos = .ok (func, rest)) : func.Formed := by
  unfold parseAggFunction at ok
  dsimp only at ok
  split at ok
  · cases ok
  split at ok
  · cases ok
  split at ok
  · cases ok
  split at ok
  · obtain rfl : func = _ := closeWith_ok ok
    exact ⟨by simp, fun _ => rfl⟩
  split at ok
  · obtain ⟨field, _, _, ok⟩ := andThen_ok ok
    split at ok
    · cases ok
    dsimp only at ok
    split at ok
    · cases ok
    obtain rfl : func = _ := closeWith_ok ok
    exact ⟨by simp, fun other => absurd rfl other⟩
  split at ok
  · cases ok
  · rename_i type named
    obtain ⟨field, _, _, ok⟩ := andThen_ok ok
    obtain rfl : func = _ := closeWith_ok ok
    refine ⟨?_, fun _ => rfl⟩
    have notCount : type ≠ .count := by
      rintro rfl
      simp only [fieldFuncType] at named
      grind
    simp [notCount]

/-- Every item of a list with commas is one that its parser makes. -/
theorem commaLoop_forall {α : Type} {item : List Char → Parsed α} {P : α → Prop}
    (each : ∀ pos value rest, item pos = .ok (value, rest) → P value) :
    ∀ (fuel : Nat) {pos rest : List Char} {items : List α},
      commaLoop item fuel pos = .ok (items, rest) → ∀ value ∈ items, P value := by
  intro fuel
  induction fuel with
  | zero =>
      intro pos rest items ok value member
      obtain ⟨rfl, -⟩ := Prod.mk.inj (Except.ok.inj ok)
      cases member
  | succ fuel ih =>
      intro pos rest items ok value member
      unfold commaLoop at ok
      split at ok
      · obtain ⟨rfl, -⟩ := Prod.mk.inj (Except.ok.inj ok)
        cases member
      · obtain ⟨first, _, read, ok⟩ := andThen_ok ok
        obtain ⟨others, _, looped, ok⟩ := andThen_ok ok
        obtain ⟨rfl, -⟩ := Prod.mk.inj (Except.ok.inj ok)
        rcases List.mem_cons.mp member with rfl | later
        · exact each _ _ _ read
        · exact ih looped value later

/-- The functions of a query that is parsed are formed. -/
theorem parseFunctions_formed {pos rest : List Char} {funcs : List AggFunc}
    (ok : parseFunctions pos = .ok (funcs, rest)) : ∀ func ∈ funcs, func.Formed := by
  have listed : ∀ {pos rest : List Char} {funcs : List AggFunc},
      commaList parseAggFunction pos = .ok (funcs, rest) → ∀ func ∈ funcs, func.Formed := by
    intro pos rest funcs ok func member
    obtain ⟨first, _, read, ok⟩ := andThen_ok ok
    obtain ⟨others, _, looped, ok⟩ := andThen_ok ok
    obtain ⟨rfl, -⟩ := Prod.mk.inj (Except.ok.inj ok)
    rcases List.mem_cons.mp member with rfl | later
    · exact parseAggFunction_formed read
    · exact commaLoop_forall (fun _ _ _ => parseAggFunction_formed) _ looped func later
  unfold parseFunctions at ok
  split at ok
  · exact listed ok
  · obtain ⟨inner, _, read, ok⟩ := andThen_ok ok
    obtain rfl : funcs = inner := closeWith_ok ok
    exact listed read

end NqlParser

/-- The result has one entry for each function with a value, and the entry is its own. -/
def OneEntryEach (funcs : List AggFunc) (bucket : Bucket) : Prop :=
  aggMetrics funcs bucket = .object (metricEntries funcs bucket)

/-- No two functions with a value clash. -/
def NoClash (funcs : List AggFunc) (bucket : Bucket) : Prop :=
  ∀ a ∈ funcs, ∀ b ∈ funcs, a ≠ b → (aggFuncValue bucket a).isSome →
    (aggFuncValue bucket b).isSome → ¬NameClash a b

theorem metricEntries_names (funcs : List AggFunc) (bucket : Bucket) :
    (metricEntries funcs bucket).map Prod.fst =
      (funcs.filter (fun func => (aggFuncValue bucket func).isSome)).map aggFuncName := by
  induction funcs with
  | nil => rfl
  | cons func funcs ih =>
      unfold metricEntries at ih ⊢
      cases value : aggFuncValue bucket func with
      | none => simp [value, ih]
      | some value' => simp [value, ih]

/-- For every list of different functions of a query, the result has one entry for each function
    with a value, none of them overwritten by another, if and only if no two of these clash. -/
theorem oneEntryEach_iff {funcs : List AggFunc} (formed : ∀ func ∈ funcs, func.Formed)
    (different : funcs.Nodup) (bucket : Bucket) :
    OneEntryEach funcs bucket ↔ NoClash funcs bucket := by
  have valued := different.filter (fun func => (aggFuncValue bucket func).isSome)
  rw [OneEntryEach, aggMetrics_entries_iff, metricEntries_names,
    List.nodup_map_iff_inj_on valued]
  constructor
  · intro injective a inA b inB other someA someB clash
    have names : aggFuncName a = aggFuncName b := by
      rw [← String.toList_inj, aggFuncName_toList, aggFuncName_toList]
      exact clash.same
    exact other (injective a (List.mem_filter.mpr ⟨inA, someA⟩) b
      (List.mem_filter.mpr ⟨inB, someB⟩) names)
  · intro noClash a memberA b memberB names
    obtain ⟨inA, someA⟩ := List.mem_filter.mp memberA
    obtain ⟨inB, someB⟩ := List.mem_filter.mp memberB
    have letters : nameLetters a = nameLetters b := by
      rw [← aggFuncName_toList, ← aggFuncName_toList, names]
    by_contra other
    rcases clash_of_same (formed a inA) (formed b inB) letters with same | clash | clash
    · exact other same
    · exact noClash a inA b inB other someA someB clash
    · exact noClash b inB a inA (Ne.symm other) someB someA clash

/-- An average, and the sum of a field that is named like it. -/
def averageTwice : Aggregate where
  funcs := [⟨.avg, some "latency", 0⟩, ⟨.sum, some "avg_latency", 0⟩]
  groupByFields := []
  whereFilter := none
  window := { type := .none }

/-- A bucket that has counted one event for them. -/
def oneLatency : Bucket := { newBucket 0 none 0 u64Max with count := 1, sum := 20 }

theorem averageTwice_formed : ∀ func ∈ averageTwice.funcs, func.Formed := by
  simp only [averageTwice, List.mem_cons, List.not_mem_nil, or_false]
  rintro func (rfl | rfl)
  · exact ⟨by simp, fun _ => rfl⟩
  · exact ⟨by simp, fun _ => rfl⟩

theorem oneEntryEach_iff_averageTwice :
    OneEntryEach averageTwice.funcs oneLatency ↔ NoClash averageTwice.funcs oneLatency :=
  oneEntryEach_iff averageTwice_formed (by decide) oneLatency

/-- Both are put under `avg_latency`. -/
theorem averageTwice_overwritten :
    @nqlParse literalPcre2 "aggregate avg(latency), sum(avg_latency)".toList =
      some (.single (.aggregate averageTwice)) ∧
    averageTwice.funcs.Nodup ∧ ¬OneEntryEach averageTwice.funcs oneLatency := by
  refine ⟨by decide, by decide, ?_⟩
  intro each
  have names := (aggMetrics_entries_iff averageTwice.funcs oneLatency).mp each
  have same : (metricEntries averageTwice.funcs oneLatency).map Prod.fst =
      ["avg_latency", "avg_latency"] := by
    rw [metricEntries_names]
    decide
  rw [same] at names
  simp at names

end Nblex
