import Nblex.Core.NqlExecutor.Aggregate

/-!
# The events a bucket counts

A bucket keeps accumulators and not the events it has been updated with. Beside a run of a query
these definitions follow which events go into the bucket at which address; addresses are not used
again.
-/

namespace Nblex

variable [Pcre2]

/-- The addresses of the buckets that an event is counted in. -/
def countingBuckets (query : Aggregate) (state : AggState) (event : Event) (now : Nat) :
    List Nat :=
  if whereAccepts query event then
    match getOrCreateBucketsForEvent state (extractGroupKeys state.groupByFields event)
        (eventTimestamp event now) with
    | none => []
    | some (_, buckets) => buckets.map Bucket.addr
  else []

/-- The event of one step, if it is counted in the bucket at an address. -/
def countedHere (query : Aggregate) (addr : Nat) (state : AggState) : AggOp → List Event
  | .event event now _ =>
      if addr ∈ countingBuckets query state event now then [event] else []
  | .tick _ => []

/-- The events of a run that are counted in the bucket at an address, in their order. -/
def countedEvents (query : Aggregate) (addr : Nat) : AggState → List AggOp → List Event
  | _, [] => []
  | state, op :: ops =>
      match aggStep query state op with
      | none => countedHere query addr state op
      | some (next, _) => countedHere query addr state op ++ countedEvents query addr next ops

end Nblex
