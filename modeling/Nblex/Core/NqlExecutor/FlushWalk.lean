import Nblex.Core.NqlExecutor.Aggregate
import Nblex.Misc.Chain

/-!
# The walk of the window flush

The loop of `window_flush_cb` by pointers, where `flushLoop` goes over the list by its structure:
each turn reads the cell it has come to, saves its link, writes the cell, and may have
`remove_bucket_from_list` take it out with a traversal of its own.
-/

namespace Nblex

/-- `remove_bucket_from_list`: a traversal from the head of the list, and nothing if the bucket is
    not in it. -/
def removeBucketFromList (state : AggState) (place : Nat) : AggState :=
  match Chain.node? Bucket.addr state.buckets place with
  | none => state
  | some _ =>
      { state with
        buckets := Chain.unlink Bucket.addr state.buckets place
        bucketCount := state.bucketCount - 1 }

/-- The writes of one turn: the accumulators of the bucket, then its removal. -/
def flushTurn (state : AggState) (place : Nat) (step : FlushStep) : AggState :=
  let written :=
    { state with buckets := Chain.write Bucket.addr state.buckets place step.bucket }
  if step.shouldRemove then removeBucketFromList written place else written

/-- The loop from `bucket`, a pointer. `none` is a pointer to no cell of the list, a division by
    zero, or more turns than the fuel. -/
def flushWalk (now : Nat) : Nat → AggState → Option Nat → Option (AggState × List Bucket)
  | _, state, none => some (state, [])
  | 0, _, some _ => none
  | fuel + 1, state, some place =>
      match Chain.node? Bucket.addr state.buckets place with
      | none => none
      | some bucket =>
          let nextBucket := Chain.next? Bucket.addr state.buckets place
          match flushBucket state.window now bucket with
          | none => none
          | some step =>
              (flushWalk now fuel (flushTurn state place step) nextBucket).map fun result =>
                (result.1, (if step.shouldFlush then [step.bucket] else []) ++ result.2)

/-- `window_flush_cb` from the head of the list. -/
def windowFlushWalk (state : AggState) (now : Nat) : Option (AggState × List Bucket) :=
  (flushWalk now (state.buckets.length + 1) state (state.buckets.head?.map Bucket.addr)).map
    fun result => ({ result.1 with lastFlushNs := now }, result.2)

end Nblex
