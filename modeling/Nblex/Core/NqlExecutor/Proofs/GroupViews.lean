import Nblex.Core.NqlExecutor.Proofs.GroupKeys
import Nblex.Misc.Upsert

/-!
# What a step does to the buckets of one group

The buckets of a group, without their addresses, change by an event of the group as a function of
themselves, and not at all by an event of another group.
-/

namespace Nblex

/-- A bucket but for the address of its heap cell. -/
def Bucket.content (bucket : Bucket) : Bucket := { bucket with addr := 0 }

/-- The buckets of a group, in their order and without their addresses. -/
def AggState.groupView (keys : Option (List String)) (state : AggState) : List Bucket :=
  (bucketsOf keys state.buckets).map Bucket.content

/-- What a result says to a group: nothing, unless it is a result of the group. -/
def seenBy (keys : Option (List String)) (bucket : Bucket) : Option Bucket :=
  if bucket.groupKeys = keys then some bucket.content else none

/-! ## Updates and addresses -/

theorem updateWithValue_content (bucket : Bucket) (type : AggFuncType) (value : ℚ) :
    (updateWithValue bucket type value).content = updateWithValue bucket.content type value := by
  cases type with
  | distinct =>
      have same : bucket.content.distinctValues = bucket.distinctValues := rfl
      unfold updateWithValue
      dsimp only
      rw [same]
      by_cases seen : bucket.distinctValues.any (closeTo · value) = true
      · rw [if_pos seen, if_pos seen]
      · rw [if_neg seen, if_neg seen]
        rfl
  | count => rfl
  | sum => rfl
  | avg => rfl
  | min => rfl
  | max => rfl
  | percentile => rfl

theorem updateWithFunc_content (data : Json) (bucket : Bucket) (func : AggFunc) :
    (updateWithFunc data bucket func).content = updateWithFunc data bucket.content func := by
  unfold updateWithFunc
  split
  · rfl
  · rfl
  · exact updateWithValue_content bucket _ _

theorem updateBucketWithEvent_content (window : Window) (funcs : List AggFunc) (bucket : Bucket)
    (event : Event) (now : Nat) :
    (updateBucketWithEvent window funcs bucket event now).content =
      updateBucketWithEvent window funcs bucket.content event now := by
  have functions : ∀ (funcs : List AggFunc) (b : Bucket),
      (funcs.foldl (updateWithFunc (event.data.getD .null)) b).content =
        funcs.foldl (updateWithFunc (event.data.getD .null)) b.content := by
    intro funcs
    induction funcs with
    | nil =>
        intro b
        rfl
    | cons func funcs ih =>
        intro b
        rw [List.foldl_cons, List.foldl_cons, ih, updateWithFunc_content]
  rw [updateBucketWithEvent, updateBucketWithEvent, functions]
  refine congrArg (fun b => funcs.foldl (updateWithFunc (event.data.getD .null)) b) ?_
  by_cases later : window.type = .session ∧ bucket.lastEventNs < eventTimestamp event now
  · exact (congrArg Bucket.content (if_pos later)).trans (if_pos later).symm
  · exact (congrArg Bucket.content (if_neg later)).trans (if_neg later).symm

/-- An update that leaves alone what buckets are found by, and does not read their address. -/
structure Quiet (f : Bucket → Bucket) : Prop where
  addr : ∀ b, (f b).addr = b.addr
  groupKeys : ∀ b, (f b).groupKeys = b.groupKeys
  content : ∀ b, (f b).content = f b.content

theorem updateBucketWithEvent_quiet (window : Window) (funcs : List AggFunc) (event : Event)
    (now : Nat) : Quiet (fun b => updateBucketWithEvent window funcs b event now) where
  addr := fun b => updateBucketWithEvent_addr window funcs b event now
  groupKeys := fun b => updateBucketWithEvent_groupKeys window funcs b event now
  content := fun b => updateBucketWithEvent_content window funcs b event now

section View

variable {query : Aggregate} {state : AggState} {keys other : Option (List String)}
  {p : Bucket → Bool} {f : Bucket → Bucket}

/-- The buckets carry keys of the length of the `by` clause. -/
def AggState.Keyed (query : Aggregate) (state : AggState) : Prop :=
  ∀ bucket ∈ state.buckets, KeysFit query.groupByFields bucket.groupKeys

theorem createBucketWithWindow_keyed (keyed : state.Keyed query)
    (fit : KeysFit query.groupByFields keys) (windowStart windowEnd : Nat) :
    (createBucketWithWindow state keys windowStart windowEnd).1.Keyed query := by
  intro bucket member
  rcases List.mem_cons.mp member with rfl | old
  · exact fit
  · exact keyed bucket old

theorem updateAt_keyed (keyed : state.Keyed query) (quiet : Quiet f) (addr : Nat) :
    (state.updateAt addr f).Keyed query := by
  intro bucket member
  obtain ⟨old, inside, same⟩ := updateAt_groupKeys quiet.groupKeys member
  rw [same]
  exact keyed old inside

/-- Updating at the address of the bucket that a search finds. -/
theorem map_update_of_find {buckets : List Bucket} {bucket : Bucket} (new : Bucket)
    (addrs : (buckets.map Bucket.addr).Nodup) (search : buckets.find? p = some bucket) :
    buckets.map (fun b => if b.addr = bucket.addr then f b else b) = upsert p new f buckets := by
  obtain ⟨front, back, rfl, touched⟩ := touch_of_find_some (f := f) search
  rw [List.map_append, List.map_cons, List.nodup_middle, List.nodup_cons, List.mem_append,
    not_or] at addrs
  rw [List.map_append, List.map_cons, if_pos rfl, map_update_fresh addrs.1.1,
    map_update_fresh addrs.1.2, upsert, touched]
  rfl

/-- Updating at the address of a new bucket. -/
theorem map_update_of_new {buckets : List Bucket} {new : Bucket}
    (addrs : ((new :: buckets).map Bucket.addr).Nodup) (search : buckets.find? p = none) :
    (new :: buckets).map (fun b => if b.addr = new.addr then f b else b) =
      upsert p new f buckets := by
  rw [List.map_cons, List.nodup_cons] at addrs
  rw [List.map_cons, if_pos rfl, map_update_fresh addrs.1, upsert, touch_of_find_none search]
  rfl

/-- Finding or creating a bucket and updating it, in the list of all buckets. -/
theorem buckets_findOrCreate {found : Option Bucket} {ws we : Nat}
    (addrs : ((findOrCreate state found keys ws we).1.buckets.map Bucket.addr).Nodup)
    (search : found = state.buckets.find? p) :
    ((findOrCreate state found keys ws we).1.updateAt
        (findOrCreate state found keys ws we).2.addr f).buckets =
      upsert p (newBucket state.nextAddr keys ws we) f state.buckets := by
  cases found with
  | some bucket => exact map_update_of_find _ addrs search.symm
  | none => exact map_update_of_new addrs search.symm

/-- The same among the buckets of the group. -/
theorem bucketsOf_findOrCreate {found : Option Bucket} {ws we : Nat}
    (addrs : ((findOrCreate state found keys ws we).1.buckets.map Bucket.addr).Nodup)
    (keeps : ∀ b, (f b).groupKeys = b.groupKeys)
    (search : found = (bucketsOf keys state.buckets).find? p) :
    bucketsOf keys ((findOrCreate state found keys ws we).1.updateAt
        (findOrCreate state found keys ws we).2.addr f).buckets =
      upsert p (newBucket state.nextAddr keys ws we) f (bucketsOf keys state.buckets) := by
  have distinct : ((bucketsOf keys (findOrCreate state found keys ws we).1.buckets).map
      Bucket.addr).Nodup := (List.filter_sublist.map _).nodup addrs
  rw [bucketsOf_updateAt _ keeps]
  cases found with
  | some bucket => exact map_update_of_find _ distinct search.symm
  | none =>
      have here : bucketsOf keys (findOrCreate state none keys ws we).1.buckets =
          newBucket state.nextAddr keys ws we :: bucketsOf keys state.buckets :=
        List.filter_cons_of_pos (decide_eq_true rfl)
      rw [here] at distinct ⊢
      exact map_update_of_new distinct search.symm

/-- The bucket a search or a creation leads to, before and after the update. -/
theorem findOrCreate_bucket {found : Option Bucket} (ws we : Nat) :
    (findOrCreate state found keys ws we).2 =
      found.getD (newBucket state.nextAddr keys ws we) := by
  cases found with
  | some bucket => rfl
  | none => rfl

/-- Creating a bucket of another group changes nothing. -/
theorem findOrCreate_groupView_other (found : Option Bucket) (different : keys ≠ other)
    (ws we : Nat) :
    (findOrCreate state found keys ws we).1.groupView other = state.groupView other := by
  cases found with
  | some bucket => rfl
  | none =>
      refine congrArg (List.map Bucket.content) (List.filter_cons_of_neg ?_)
      rw [decide_eq_true_eq]
      exact different

/-- Updating a bucket of another group changes nothing. -/
theorem updateAt_groupView_other (addrs : (state.buckets.map Bucket.addr).Nodup)
    (quiet : Quiet f) {bucket : Bucket} (member : bucket ∈ state.buckets)
    (different : bucket.groupKeys ≠ other) :
    (state.updateAt bucket.addr f).groupView other = state.groupView other := by
  rw [AggState.groupView, bucketsOf_updateAt_other addrs quiet.groupKeys member different]
  rfl

end View

end Nblex
