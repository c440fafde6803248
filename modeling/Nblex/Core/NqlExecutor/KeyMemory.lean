import Nblex.Core.NqlExecutor.FlushWalk
import Nblex.Core.NqlExecutor.KeyOwnership
import Nblex.Misc.Isolation

/-!
# Group-key arrays in memory

The executor of `src/core/nql_executor.c` where an array of group keys that has been freed can
neither be read nor be freed again: a step that does so has no result. The keys are read by the
searches for a bucket and by `create_agg_result_event`. A division by zero has no result either.
-/

namespace Nblex

/-- A pointer to group keys is `NULL` or its array has not been freed. -/
def allocated (arrays : Ledger) (array : Option Nat) : Bool :=
  match array with
  | none => true
  | some handle => arrays.released handle == 0

/-- The keys of a bucket can be read and freed. -/
def KeyState.readable (owning : KeyState) (bucket : Bucket) : Bool :=
  allocated owning.arrays (owning.keysAt bucket.addr)

namespace KeyMemory

/-- A search of the bucket list, which reads the keys of each bucket it comes to unless there are no
    keys to compare them with. `none` is a read of freed keys. -/
def search (owning : KeyState) (keys : Option (List String)) (test : Bucket → Bool) :
    List Bucket → Option (Option Bucket)
  | [] => some none
  | bucket :: rest =>
      if groupKeysCount keys = 0 ∨ owning.readable bucket then
        if compareGroupKeys bucket.groupKeys keys (groupKeysCount keys) && test bucket then
          some (some bucket)
        else search owning keys test rest
      else none

/-- `find_bucket_by_window`. -/
def findBucketByWindow (owning : KeyState) (keys : Option (List String)) (windowStart : Nat) :
    Option (Option Bucket) :=
  search owning keys (fun bucket => bucket.windowStartNs == windowStart) owning.state.buckets

/-- The loop over the sliding windows. -/
def slidingLoop (keys : Option (List String)) (array : Option Nat)
    (timestamp windowSize slide : Nat) :
    Nat → KeyState → Bool → Nat → Option (KeyState × Bool × List Bucket)
  | 0, owning, owned, _ => some (owning, owned, [])
  | fuel + 1, owning, owned, current =>
      if current ≤ timestamp ∧ timestamp < u64Add current windowSize then
        match findBucketByWindow owning keys current with
        | none => none
        | some (some bucket) =>
            (slidingLoop keys array timestamp windowSize slide fuel owning owned
              (u64Add current slide)).map fun rest => (rest.1, rest.2.1, bucket :: rest.2.2)
        | some none =>
            let created := owning.createBucketWithWindow keys array current
              (u64Add current windowSize)
            (slidingLoop keys array timestamp windowSize slide fuel created.1 true
              (u64Add current slide)).map fun rest => (rest.1, rest.2.1, created.2 :: rest.2.2)
      else some (owning, owned, [])

/-- The sliding branch. -/
def slidingBuckets (owning : KeyState) (keys : Option (List String)) (array : Option Nat)
    (timestamp : Nat) : Option (KeyState × List Bucket) :=
  let windowSize := windowSizeNs owning.state.window
  let slide := slideNs owning.state.window
  if slide = 0 then none
  else
    (slidingLoop keys array timestamp windowSize slide (maxWindows timestamp windowSize slide)
      owning false (earliestWindowStart timestamp windowSize slide)).map fun looped =>
        (if looped.2.1 then looped.1 else looped.1.freeKeys array, looped.2.2)

/-- `get_or_create_buckets_for_event`. -/
def getOrCreateBucketsForEvent (owning : KeyState) (keys : Option (List String))
    (array : Option Nat) (timestamp : Nat) : Option (KeyState × List Bucket) :=
  let windowSize := windowSizeNs owning.state.window
  match owning.state.window.type with
  | .none =>
      (search owning keys
        (fun bucket => bucket.windowStartNs == 0 && bucket.windowEndNs == u64Max)
        owning.state.buckets).map fun found => owning.findOrCreate found keys array 0 u64Max
  | .session =>
      (search owning keys
        (fun bucket => bucket.windowEndNs == u64Max && decide (bucket.lastEventNs ≤ timestamp) &&
          decide (timestamp - bucket.lastEventNs < timeoutNs owning.state.window))
        owning.state.buckets).map fun found =>
          owning.findOrCreate found keys array timestamp u64Max
  | .tumbling =>
      (u64Div timestamp windowSize).bind fun index =>
        (findBucketByWindow owning keys (u64Mul index windowSize)).map fun found =>
          owning.findOrCreate found keys array (u64Mul index windowSize)
            (u64Add (u64Mul index windowSize) windowSize)
  | .sliding => slidingBuckets owning keys array timestamp

/-- `execute_aggregate` after the `where` clause, with what it emits. -/
def aggregateEvent (owning : KeyState) (event : Event) (now now' : Nat) :
    Option (KeyState × List Bucket) :=
  let keys := extractGroupKeys owning.state.groupByFields event
  let allocated := owning.allocKeys keys
  match getOrCreateBucketsForEvent allocated.1 keys allocated.2 (eventTimestamp event now) with
  | none => none
  | some (found, buckets) =>
      let updated := { found with
        state := buckets.foldl (fun state bucket => state.updateAt bucket.addr
          (fun bucket => updateBucketWithEvent state.window state.funcs bucket event now'))
          found.state }
      let emitted :=
        match owning.state.window.type, buckets with
        | .none, bucket :: _ =>
            (updated.state.buckets.find? (fun b => b.addr == bucket.addr)).toList
        | _, _ => []
      if emitted.all updated.readable then some (updated, emitted) else none

/-- The writes of one turn of the flush. -/
def flushTurn (owning : KeyState) (place : Nat) (step : FlushStep) : KeyState :=
  { owning with
    state := Nblex.flushTurn owning.state place step
    arrays :=
      if step.shouldRemove then freeGroupKeys owning.arrays (owning.keysAt place)
      else owning.arrays }

/-- The loop of the flush. A turn reads the keys for the result and frees them with the bucket. -/
def flushWalk (now : Nat) : Nat → KeyState → Option Nat → Option (KeyState × List Bucket)
  | _, owning, none => some (owning, [])
  | 0, _, some _ => none
  | fuel + 1, owning, some place =>
      match Chain.node? Bucket.addr owning.state.buckets place with
      | none => none
      | some bucket =>
          let nextBucket := Chain.next? Bucket.addr owning.state.buckets place
          match flushBucket owning.state.window now bucket with
          | none => none
          | some step =>
              if (step.shouldFlush || step.shouldRemove) && !owning.readable bucket then none
              else
                (flushWalk now fuel (flushTurn owning place step) nextBucket).map fun result =>
                  (result.1, (if step.shouldFlush then [step.bucket] else []) ++ result.2)

/-- `window_flush_cb` from the head of the list. -/
def windowFlushCb (owning : KeyState) (now : Nat) : Option (KeyState × List Bucket) :=
  (flushWalk now (owning.state.buckets.length + 1) owning
    (owning.state.buckets.head?.map Bucket.addr)).map fun result =>
      ({ result.1 with state := { result.1.state with lastFlushNs := now } }, result.2)

section Runs

variable [Pcre2] (query : Aggregate)

/-- One step. -/
def step (owning : KeyState) : AggOp → Option (KeyState × List Bucket)
  | .event event now now' =>
      if whereAccepts query event then aggregateEvent owning event now now'
      else some (owning, [])
  | .tick now => windowFlushCb owning now

/-- A run from the state the query is created with, with everything emitted on the way. -/
def run (ops : List AggOp) : Option (KeyState × List Bucket) :=
  Isolation.run (step query) (newKeyState query) ops

end Runs

end KeyMemory

end Nblex
