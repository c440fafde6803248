import Nblex.Core.NqlExecutor.Aggregate
import Nblex.Misc.Ledger
import Mathlib.Logic.Function.Basic

/-!
# Group-key arrays

Who allocates and who frees the arrays of group keys: `extract_group_keys`,
`get_or_create_buckets_for_event`, `execute_aggregate` and `window_flush_cb` of
`src/core/nql_executor.c`. An array is a handle, and the ledger counts the calls of
`free_group_keys` on it. The keys in a freed array are read as they were.
-/

namespace Nblex

/-- An aggregation state with its key arrays. `keysAt` is `group_keys` of the bucket at an
    address. `running` is false once a step has divided by zero, after which nothing runs. -/
structure KeyState where
  state : AggState
  keysAt : Nat → Option Nat
  arrays : Ledger
  running : Bool

/-- The state of a query before its first event. -/
def newKeyState (query : Aggregate) : KeyState where
  state := newAggState query
  keysAt := fun _ => none
  arrays := Ledger.empty
  running := true

/-- `free_group_keys`. -/
def freeGroupKeys (arrays : Ledger) (array : Option Nat) : Ledger :=
  match array with
  | none => arrays
  | some handle => arrays.release handle

namespace KeyState

/-- The allocation of `extract_group_keys`; there is none where the result is `NULL`. -/
def allocKeys (owning : KeyState) (keys : Option (List String)) : KeyState × Option Nat :=
  match keys with
  | none => (owning, none)
  | some _ => ({ owning with arrays := owning.arrays.issue }, some owning.arrays.next)

/-- Free the keys of an event. -/
def freeKeys (owning : KeyState) (array : Option Nat) : KeyState :=
  { owning with arrays := freeGroupKeys owning.arrays array }

/-- `create_bucket_with_window`: the bucket refers to the array it is given. -/
def createBucketWithWindow (owning : KeyState) (keys : Option (List String))
    (array : Option Nat) (windowStart windowEnd : Nat) : KeyState × Bucket :=
  let created := Nblex.createBucketWithWindow owning.state keys windowStart windowEnd
  ({ owning with
      state := created.1
      keysAt := Function.update owning.keysAt created.2.addr array }, created.2)

/-- The branches with one bucket: the keys are freed if the search found a bucket, and given to a
    new one if it did not. -/
def findOrCreate (owning : KeyState) (found : Option Bucket) (keys : Option (List String))
    (array : Option Nat) (windowStart windowEnd : Nat) : KeyState × List Bucket :=
  match found with
  | some bucket => (owning.freeKeys array, [bucket])
  | none =>
      let created := owning.createBucketWithWindow keys array windowStart windowEnd
      (created.1, [created.2])

/-- The loop over the sliding windows. The flag is `keys_owned_by_bucket`. -/
def slidingLoop (keys : Option (List String)) (array : Option Nat)
    (timestamp windowSize slide : Nat) :
    Nat → KeyState → Bool → Nat → KeyState × Bool × List Bucket
  | 0, owning, owned, _ => (owning, owned, [])
  | fuel + 1, owning, owned, current =>
      if current ≤ timestamp ∧ timestamp < u64Add current windowSize then
        match findBucketByWindow owning.state keys current with
        | some bucket =>
            let rest := slidingLoop keys array timestamp windowSize slide fuel owning owned
              (u64Add current slide)
            (rest.1, rest.2.1, bucket :: rest.2.2)
        | none =>
            let created := owning.createBucketWithWindow keys array current
              (u64Add current windowSize)
            let rest := slidingLoop keys array timestamp windowSize slide fuel created.1 true
              (u64Add current slide)
            (rest.1, rest.2.1, created.2 :: rest.2.2)
      else (owning, owned, [])

/-- The sliding branch: the keys are freed if no bucket was created. -/
def slidingBuckets (owning : KeyState) (keys : Option (List String)) (array : Option Nat)
    (timestamp : Nat) : Option (KeyState × List Bucket) :=
  let windowSize := windowSizeNs owning.state.window
  let slide := slideNs owning.state.window
  if slide = 0 then none
  else
    let looped := slidingLoop keys array timestamp windowSize slide
      (maxWindows timestamp windowSize slide) owning false
      (earliestWindowStart timestamp windowSize slide)
    some (if looped.2.1 then looped.1 else looped.1.freeKeys array, looped.2.2)

/-- `get_or_create_buckets_for_event`, which takes over the keys. -/
def getOrCreateBucketsForEvent (owning : KeyState) (keys : Option (List String))
    (array : Option Nat) (timestamp : Nat) : Option (KeyState × List Bucket) :=
  let windowSize := windowSizeNs owning.state.window
  match owning.state.window.type with
  | .none =>
      let found := owning.state.buckets.find? fun bucket =>
        compareGroupKeys bucket.groupKeys keys (groupKeysCount keys) &&
          bucket.windowStartNs == 0 && bucket.windowEndNs == u64Max
      some (owning.findOrCreate found keys array 0 u64Max)
  | .session =>
      let found := owning.state.buckets.find? fun bucket =>
        compareGroupKeys bucket.groupKeys keys (groupKeysCount keys) &&
          bucket.windowEndNs == u64Max && decide (bucket.lastEventNs ≤ timestamp) &&
          decide (timestamp - bucket.lastEventNs < timeoutNs owning.state.window)
      some (owning.findOrCreate found keys array timestamp u64Max)
  | .tumbling =>
      (u64Div timestamp windowSize).map fun index =>
        owning.findOrCreate (findBucketByWindow owning.state keys (u64Mul index windowSize)) keys
          array (u64Mul index windowSize) (u64Add (u64Mul index windowSize) windowSize)
  | .sliding => owning.slidingBuckets keys array timestamp

/-- `execute_aggregate` after the `where` clause. `none` is a division by zero. -/
def aggregateEvent (owning : KeyState) (event : Event) (now now' : Nat) : Option KeyState :=
  let keys := extractGroupKeys owning.state.groupByFields event
  let allocated := owning.allocKeys keys
  match allocated.1.getOrCreateBucketsForEvent keys allocated.2 (eventTimestamp event now) with
  | none => none
  | some (found, buckets) =>
      some { found with
        state := buckets.foldl (fun state bucket => state.updateAt bucket.addr
          (fun bucket => updateBucketWithEvent state.window state.funcs bucket event now'))
          found.state }

end KeyState

/-- `free_bucket_resources`, called from the loop of `window_flush_cb` for the buckets it
    removes. -/
def flushKeys (window : Window) (now : Nat) (keysAt : Nat → Option Nat) (arrays : Ledger) :
    List Bucket → Ledger
  | [] => arrays
  | bucket :: rest =>
      match flushBucket window now bucket with
      | some step =>
          flushKeys window now keysAt
            (if step.shouldRemove then freeGroupKeys arrays (keysAt bucket.addr) else arrays) rest
      | none => flushKeys window now keysAt arrays rest

/-- `window_flush_cb`. -/
def KeyState.windowFlushCb (owning : KeyState) (now : Nat) : Option KeyState :=
  (Nblex.windowFlushCb owning.state now).map fun flushed =>
    { owning with
      state := flushed.1
      arrays := flushKeys owning.state.window now owning.keysAt owning.arrays
        owning.state.buckets }

section Runs

variable [Pcre2] (query : Aggregate)

/-- One step. -/
def KeyState.run (owning : KeyState) : AggOp → Option KeyState
  | .event event now now' =>
      if whereAccepts query event then owning.aggregateEvent event now now' else some owning
  | .tick now => owning.windowFlushCb now

/-- One step of a process that may have ended. -/
def keyStep (owning : KeyState) (op : AggOp) : KeyState :=
  if owning.running then (owning.run query op).getD { owning with running := false } else owning

end Runs

end Nblex
