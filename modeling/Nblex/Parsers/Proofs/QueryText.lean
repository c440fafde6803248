import Nblex.Parsers.Proofs.FilterScan

/-!
# Query trees and their canonical texts

A tree holds what a query says: names that `parse_identifier` reads as a whole, durations in
milliseconds, natural percentiles, and filters with the texts they are written as. Its text joins
the stages with ` | ` and writes a duration as its number of milliseconds.
-/

namespace Nblex

namespace NqlParser

/-- The choices of spelling: a blank before the unit of a duration, and `*` instead of `show *`. -/
structure Spelling where
  unitBlank : Bool
  bareStar : Bool
  deriving DecidableEq

/-- A name that `parse_identifier` reads as a whole. -/
structure Identifier where
  chars : List Char
  accepted : parseIdentifier chars = some (String.ofList chars, [])

/-- The name as a field of the tree. -/
def Identifier.name (field : Identifier) : String := String.ofList field.chars

/-- A duration of at least a millisecond in a `uint64_t`. -/
abbrev Duration : Type := { ms : Nat // 0 < ms ∧ ms < 2 ^ 64 }

/-- `n ms`. -/
def Duration.text (spelling : Spelling) (duration : Duration) : List Char :=
  Nat.toDigits 10 duration.val ++
    (if spelling.unitBlank then " ms".toList else "ms".toList)

/-- The aggregations of one field. -/
inductive FieldFunc where
  | sum | avg | min | max | distinct
  deriving DecidableEq

/-- What the aggregation is called in a query. -/
def FieldFunc.name : FieldFunc → List Char
  | .sum => "sum".toList
  | .avg => "avg".toList
  | .min => "min".toList
  | .max => "max".toList
  | .distinct => "distinct".toList

/-- What the aggregation is in the tree. -/
def FieldFunc.type : FieldFunc → AggFuncType
  | .sum => .sum
  | .avg => .avg
  | .min => .min
  | .max => .max
  | .distinct => .distinct

/-- An aggregation of a query. -/
inductive FuncTree where
  | count
  | ofField (func : FieldFunc) (field : Identifier)
  | percentile (field : Identifier) (value : Nat)

/-- The aggregation as the parser builds it. -/
def FuncTree.func : FuncTree → AggFunc
  | .count => ⟨.count, none, 0⟩
  | .ofField func field => ⟨func.type, some field.name, 0⟩
  | .percentile field value => ⟨.percentile, some field.name, value⟩

/-- The text of an aggregation. -/
def FuncTree.text : FuncTree → List Char
  | .count => "count()".toList
  | .ofField func field => func.name ++ '(' :: (field.chars ++ [')'])
  | .percentile field value =>
      "percentile(".toList ++ (field.chars ++ (", ".toList ++ (Nat.toDigits 10 value ++ [')'])))

/-- A window of a query. -/
inductive WindowTree where
  | tumbling (size : Duration)
  | sliding (size slide : Duration)
  | session (timeout : Duration)

/-- The window as the parser builds it. -/
def WindowTree.window : WindowTree → Window
  | .tumbling size => ⟨.tumbling, size.val, 0, 0⟩
  | .sliding size slide => ⟨.sliding, size.val, slide.val, 0⟩
  | .session timeout => ⟨.session, 0, 0, timeout.val⟩

/-- The text of a window. -/
def WindowTree.text (spelling : Spelling) : WindowTree → List Char
  | .tumbling size => "tumbling(".toList ++ (size.text spelling ++ [')'])
  | .sliding size slide =>
      "sliding(".toList ++ (size.text spelling ++ (", ".toList ++ (slide.text spelling ++ [')'])))
  | .session timeout => "session(".toList ++ (timeout.text spelling ++ [')'])

/-- Items after the first of a list with commas. -/
def commaText {α : Type} (text : α → List Char) (items : List α) : List Char :=
  items.flatMap fun item => ", ".toList ++ text item

/-- An optional clause, with the blank in front of it. -/
def clauseText {α : Type} (keyword : String) (text : α → List Char) : Option α → List Char
  | none => []
  | some clause => ' ' :: (keyword.toList ++ ' ' :: text clause)

/-- The text is read as a statement of another form than a filter. -/
def opensStatement (text : List Char) : Bool :=
  (["correlate", "aggregate", "show"].any fun keyword => (matchKeyword keyword.toList text).1) ||
    (consumeChar '*' text).1

/-- A nonempty list of names with commas. -/
def namesText (first : Identifier) (fields : List Identifier) : List Char :=
  first.chars ++ commaText Identifier.chars fields

/-- The `by` clause, which is there when there are fields to group by. -/
def groupByText : List Identifier → List Char
  | [] => []
  | first :: fields => " by ".toList ++ namesText first fields

section Stages

variable [Pcre2]

/-- A stage of a query. -/
inductive StageTree where
  | filter (source : FilterText ["|".toList]) (plain : opensStatement source.text = false)
  | correlate (left : FilterText ["with".toList, "within".toList, "|".toList])
      (right : FilterText ["within".toList, "|".toList]) (within : Option Duration)
  | aggregate (first : FuncTree) (funcs : List FuncTree) (groupBy : List Identifier)
      (condition : Option (FilterText ["window".toList, "|".toList]))
      (window : Option WindowTree)
  | showAll (condition : Option (FilterText ["|".toList]))
  | showFields (first : Identifier) (fields : List Identifier)
      (condition : Option (FilterText ["|".toList]))

/-- The stage as the parser builds it. -/
def StageTree.stage : StageTree → Stage
  | .filter source _ => .filter source.filter
  | .correlate left right within =>
      .correlate ⟨left.filter, right.filter,
        (within.map Subtype.val).getD defaultCorrelateWithinMs⟩
  | .aggregate first funcs groupBy condition window =>
      .aggregate ⟨first.func :: funcs.map FuncTree.func, groupBy.map Identifier.name,
        condition.map FilterText.filter,
        (window.map WindowTree.window).getD ⟨.none, 0, 0, 0⟩⟩
  | .showAll condition => .show ⟨[], true, condition.map FilterText.filter⟩
  | .showFields first fields condition =>
      .show ⟨first.name :: fields.map Identifier.name, false, condition.map FilterText.filter⟩

/-- The text of a stage. -/
def StageTree.text (spelling : Spelling) : StageTree → List Char
  | .filter source _ => source.text
  | .correlate left right within =>
      "correlate ".toList ++ (left.text ++ (" with ".toList ++ (right.text ++
        clauseText "within" (Duration.text spelling) within)))
  | .aggregate first funcs groupBy condition window =>
      "aggregate ".toList ++ (first.text ++ (commaText FuncTree.text funcs ++
        (groupByText groupBy ++ (clauseText "where" FilterText.text condition ++
          clauseText "window" (WindowTree.text spelling) window))))
  | .showAll condition =>
      (if spelling.bareStar then "*".toList else "show *".toList) ++
        clauseText "where" FilterText.text condition
  | .showFields first fields condition =>
      "show ".toList ++ (namesText first fields ++ clauseText "where" FilterText.text condition)

/-- A query of one or more stages. -/
structure QueryTree where
  first : StageTree
  later : List StageTree

/-- The query as the parser builds it: a single stage is not made a pipeline. -/
def QueryTree.query (query : QueryTree) : NqlQuery :=
  match query.later with
  | [] => .single query.first.stage
  | later => .pipeline (query.first.stage :: later.map StageTree.stage)

/-- The stages after the first. -/
def laterText (spelling : Spelling) (stages : List StageTree) : List Char :=
  stages.flatMap fun stage => " | ".toList ++ stage.text spelling

/-- The canonical text of a query. -/
def QueryTree.text (spelling : Spelling) (query : QueryTree) : List Char :=
  query.first.text spelling ++ laterText spelling query.later

end Stages

end NqlParser

end Nblex
