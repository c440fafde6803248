import Nblex.Core.NqlExecutor.Aggregate
import Nblex.Misc.Double

/-!
# Reading fields as doubles

`update_bucket_with_event` with the conversion that `get_numeric_value` makes. Sums of exact numbers
do not need it, but `distinct` compares the numbers it has read.
-/

namespace Nblex

/-- The number that `get_numeric_value` reads a value as. -/
def readDouble : Option Json → ℚ
  | some (.integer n) => doubleOfInt n
  | some (.real q) => q
  | _ => 0

/-- One turn of the loop over the functions. -/
def updateWithDouble (data : Json) (bucket : Bucket) (func : AggFunc) : Bucket :=
  match func.type, func.field with
  | .count, _ => bucket
  | _, none => bucket
  | type, some field => updateWithValue bucket type (readDouble (jsonGetPath data field))

/-- `update_bucket_with_event`. -/
def updateBucketWithDoubles (window : Window) (funcs : List AggFunc) (bucket : Bucket)
    (event : Event) (now : Nat) : Bucket :=
  let counted := { bucket with count := bucket.count + 1 }
  let dated :=
    if window.type = .session ∧ counted.lastEventNs < eventTimestamp event now then
      { counted with lastEventNs := eventTimestamp event now }
    else counted
  funcs.foldl (updateWithDouble (event.data.getD .null)) dated

/-- Count a sequence of events, each with its clock reading, in a bucket. -/
def fillWithDoubles (window : Window) (funcs : List AggFunc) (bucket : Bucket)
    (rows : List (Event × Nat)) : Bucket :=
  rows.foldl (fun bucket row => updateBucketWithDoubles window funcs bucket row.1 row.2) bucket

/-- A result that is made from a bucket: at once by a query without a window, at a tick that
    flushes the bucket by the others. -/
inductive ResultOf (state : AggState) (bucket : Bucket) : Event → Prop where
  | whole (clock : Nat) : state.window.type = .none →
      ResultOf state bucket (createAggResultEvent state bucket clock)
  | flushed (now clock : Nat) {step : FlushStep} : state.window.type ≠ .none →
      flushBucket state.window now bucket = some step → step.shouldFlush = true →
      ResultOf state bucket (createAggResultEvent state step.bucket clock)

/-- Where the integers that are read have up to 53 bits, the conversion changes nothing. -/
theorem updateBucketWithDoubles_eq (window : Window) (funcs : List AggFunc) (bucket : Bucket)
    {event : Event} (now : Nat)
    (small : ∀ func ∈ funcs, ∀ field n, func.field = some field →
      jsonGetPath (event.data.getD .null) field = some (.integer n) → n.natAbs < 2 ^ 53) :
    updateBucketWithDoubles window funcs bucket event now =
      updateBucketWithEvent window funcs bucket event now := by
  unfold updateBucketWithDoubles updateBucketWithEvent
  dsimp only
  generalize (if window.type = .session ∧ bucket.lastEventNs < eventTimestamp event now then
    ({ bucket with count := bucket.count + 1, lastEventNs := eventTimestamp event now } : Bucket)
    else { bucket with count := bucket.count + 1 }) = dated
  refine List.foldl_ext _ _ _ fun bucket func member => ?_
  unfold updateWithDouble updateWithFunc
  cases field : func.field with
  | none => cases func.type <;> rfl
  | some field' =>
      have same : readDouble (jsonGetPath (event.data.getD .null) field') =
          getNumericValue (event.data.getD .null) field' := by
        unfold readDouble getNumericValue
        cases read : jsonGetPath (event.data.getD .null) field' with
        | none => rfl
        | some value =>
            cases value with
            | integer n =>
                show ((doubleOfInt n : Int) : ℚ) = n
                rw [doubleOfInt_of_lt (small func member field' n field read)]
            | null | bool | real | string | array | object => rfl
      cases func.type <;> simp only [same]

end Nblex
