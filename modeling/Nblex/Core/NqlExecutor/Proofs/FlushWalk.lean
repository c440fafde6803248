import Nblex.Core.NqlExecutor.FlushWalk
import Nblex.Core.NqlExecutor.Proofs.WellFormed

/-!
# The walk is the loop

The walk of the window flush computes what the structural loop does, however many buckets it unlinks
and wherever they stand.
-/

namespace Nblex

/-- The turn at a cell touches that cell only, and takes it out if it is to be removed. -/
theorem flushTurn_here {state : AggState} {done rest : List Bucket} {bucket : Bucket}
    {now : Nat} {step : FlushStep} (list : state.buckets = done ++ bucket :: rest)
    (distinct : ((done ++ bucket :: rest).map Bucket.addr).Nodup)
    (stepped : flushBucket state.window now bucket = some step) :
    flushTurn state bucket.addr step = { state with
      buckets := done ++ ((if step.shouldRemove then [] else [step.bucket]) ++ rest)
      bucketCount := state.bucketCount - (if step.shouldRemove then 1 else 0) } := by
  have same : step.bucket.addr = bucket.addr := (flushBucket_keeps stepped).1
  have distinct' := Chain.distinct_write distinct same
  rw [flushTurn, list, Chain.write_here distinct]
  cases step.shouldRemove with
  | false => rfl
  | true =>
      have found := Chain.node?_here distinct'
      have taken := Chain.unlink_here distinct'
      rw [same] at found taken
      simp only [if_true, removeBucketFromList, found, taken, List.nil_append]

/-- The cells that are left after a turn have different addresses still. -/
theorem flushTurn_distinct {done rest : List Bucket} {bucket : Bucket} {step : FlushStep}
    (distinct : ((done ++ bucket :: rest).map Bucket.addr).Nodup)
    (same : step.bucket.addr = bucket.addr) :
    (((done ++ if step.shouldRemove then [] else [step.bucket]) ++ rest).map
      Bucket.addr).Nodup := by
  cases step.shouldRemove with
  | true =>
      refine distinct.sublist (List.Sublist.map _ ?_)
      simp
  | false => simpa using Chain.distinct_write distinct same

/-- From a cell on, with the cells before it done, the walk is the structural loop. The induction is
    on the cells to come; what the turns before have kept is `done`. -/
theorem flushWalk_eq {now : Nat} (rest : List Bucket) :
    ∀ (done : List Bucket) (state : AggState) (fuel : Nat), state.buckets = done ++ rest →
      ((done ++ rest).map Bucket.addr).Nodup → rest.length < fuel →
      flushWalk now fuel state (rest.head?.map Bucket.addr) =
        (flushLoop state.window now rest).map fun result =>
          ({ state with
            buckets := done ++ result.1
            bucketCount := state.bucketCount - (rest.length - result.1.length) }, result.2) := by
  induction rest with
  | nil =>
      intro done state fuel list distinct enough
      rw [flushLoop, List.head?_nil, Option.map_none, flushWalk, Option.map_some]
      dsimp only
      rw [← list]
      rfl
  | cons bucket rest ih =>
      intro done state fuel list distinct enough
      obtain ⟨fuel, rfl⟩ : ∃ n, fuel = n + 1 :=
        ⟨fuel - 1, by rw [List.length_cons] at enough; omega⟩
      rw [List.head?_cons, Option.map_some, flushWalk, list, Chain.node?_here distinct,
        Chain.next?_here distinct, flushLoop]
      dsimp only
      cases stepped : flushBucket state.window now bucket with
      | none => rfl
      | some step =>
          dsimp only
          have same : step.bucket.addr = bucket.addr := (flushBucket_keeps stepped).1
          rw [flushTurn_here list distinct stepped]
          have next := ih (done ++ if step.shouldRemove then [] else [step.bucket])
            { state with
              buckets := done ++ ((if step.shouldRemove then [] else [step.bucket]) ++ rest)
              bucketCount := state.bucketCount - (if step.shouldRemove then 1 else 0) } fuel
            (List.append_assoc _ _ _).symm
            (flushTurn_distinct distinct same)
            (by rw [List.length_cons] at enough; omega)
          rw [next]
          cases looped : flushLoop state.window now rest with
          | none => rfl
          | some result =>
              have shorter : result.1.length ≤ rest.length := by
                simpa using (flushLoop_kept looped).1.length_le
              simp only [Option.map_some, Option.some.injEq, Prod.mk.injEq, and_true,
                AggState.mk.injEq, true_and, List.append_assoc, List.length_cons]
              cases step.shouldRemove with
              | true =>
                  simp only [if_true, List.nil_append]
                  omega
              | false =>
                  simp only [Bool.false_eq_true, if_false, List.singleton_append, List.length_cons]
                  omega

/-- The callback by pointers is the callback by structure. -/
theorem windowFlushWalk_eq {state : AggState}
    (distinct : (state.buckets.map Bucket.addr).Nodup) (now : Nat) :
    windowFlushWalk state now = windowFlushCb state now := by
  rw [windowFlushWalk, flushWalk_eq state.buckets [] state _ rfl distinct (Nat.lt_succ_self _),
    windowFlushCb]
  cases flushLoop state.window now state.buckets with
  | none => rfl
  | some result => rfl

end Nblex
