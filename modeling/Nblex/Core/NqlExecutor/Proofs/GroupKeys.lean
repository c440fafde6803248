import Nblex.Core.NqlExecutor.Proofs.WellFormed
import Mathlib.Data.List.Find
import Mathlib.Data.List.Nodup

/-!
# Buckets and their groups

The keys that events with data get are of one length, and on such keys the comparison of the
executor is equality. An event goes into the one bucket that its group and its time lead to.
-/

namespace Nblex

/-- The buckets of a group, in their order. -/
def bucketsOf (keys : Option (List String)) (buckets : List Bucket) : List Bucket :=
  buckets.filter (fun bucket => decide (bucket.groupKeys = keys))

/-! ## Group keys -/

/-- The group keys that events with data get from a list of `by` fields. -/
def KeysFit (fields : List String) (keys : Option (List String)) : Prop :=
  if fields = [] then keys = none
  else ∃ texts : List String, keys = some texts ∧ texts.length = fields.length

theorem extractGroupKeys_fit {fields : List String} {event : Event}
    (keyed : event.data.isSome ∨ fields = []) :
    KeysFit fields (extractGroupKeys fields event) := by
  unfold KeysFit extractGroupKeys
  by_cases empty : fields = []
  · rw [if_pos empty]
    cases event.data with
    | none => rfl
    | some data => exact if_pos empty
  · rw [if_neg empty]
    rcases keyed with hasData | none
    · obtain ⟨data, present⟩ := Option.isSome_iff_exists.mp hasData
      refine ⟨fields.map (fun field => groupKeyText (jsonGetPath data field)), ?_, by simp⟩
      rw [present]
      exact if_neg empty
    · exact absurd none empty

/-- On such keys the comparison of the executor is equality. -/
theorem compareGroupKeys_fit {fields : List String} {keys other : Option (List String)}
    (fit : KeysFit fields keys) (otherFit : KeysFit fields other) :
    compareGroupKeys other keys (groupKeysCount keys) = decide (other = keys) := by
  unfold KeysFit at fit otherFit
  by_cases empty : fields = []
  · rw [if_pos empty] at fit otherFit
    rw [fit, otherFit]
    rfl
  · rw [if_neg empty] at fit otherFit
    obtain ⟨texts, rfl, length⟩ := fit
    obtain ⟨others, rfl, otherLength⟩ := otherFit
    have positive : texts.length ≠ 0 := by
      rw [length]
      exact fun zero => empty (List.length_eq_zero_iff.mp zero)
    simp only [compareGroupKeys, groupKeysCount, Option.map_some, Option.getD_some, positive,
      if_false]
    rw [List.take_of_length_le (by omega), List.take_of_length_le (by omega)]
    rw [Bool.eq_iff_iff]
    simp

theorem compareGroupKeys_self (keys : Option (List String)) (count : Nat) :
    compareGroupKeys keys keys count = true := by
  unfold compareGroupKeys
  split
  · rfl
  · cases keys with
    | none => rfl
    | some keys => exact beq_self_eq_true _

theorem extractGroupKeys_keyed (fields : List String) (event : Event) :
    extractGroupKeys fields event = none ∨ KeysFit fields (extractGroupKeys fields event) := by
  cases data : event.data with
  | none =>
      left
      rw [extractGroupKeys, data]
  | some value => exact Or.inr (extractGroupKeys_fit (Or.inl (by rw [data]; rfl)))

/-- It is equality too where a bucket has no keys. -/
theorem compareGroupKeys_labelled {fields : List String} {keys other : Option (List String)}
    (fit : KeysFit fields keys) (labelled : other = none ∨ KeysFit fields other) :
    compareGroupKeys other keys (groupKeysCount keys) = decide (other = keys) := by
  rcases labelled with rfl | otherFit
  · unfold KeysFit at fit
    by_cases empty : fields = []
    · rw [if_pos empty] at fit
      rw [fit]
      rfl
    · rw [if_neg empty] at fit
      obtain ⟨texts, rfl, length⟩ := fit
      have positive : texts.length ≠ 0 := by
        rw [length]
        exact fun zero => empty (List.length_eq_zero_iff.mp zero)
      simp [compareGroupKeys, groupKeysCount, positive]
  · exact compareGroupKeys_fit fit otherFit

/-- The buckets carry keys of the length of the `by` clause or none at all. -/
def AggState.Labelled (query : Aggregate) (state : AggState) : Prop :=
  ∀ bucket ∈ state.buckets,
    bucket.groupKeys = none ∨ KeysFit query.groupByFields bucket.groupKeys

/-! ## The buckets of one group under an update -/

section Update

variable {state : AggState} {keys : Option (List String)} {bucket : Bucket} {f : Bucket → Bucket}

theorem mem_bucketsOf {buckets : List Bucket} :
    bucket ∈ bucketsOf keys buckets ↔ bucket ∈ buckets ∧ bucket.groupKeys = keys := by
  simp [bucketsOf]

theorem bucketsOf_append (first second : List Bucket) :
    bucketsOf keys (first ++ second) = bucketsOf keys first ++ bucketsOf keys second :=
  List.filter_append first second

theorem bucketsOf_cons_of_eq {buckets : List Bucket} (same : bucket.groupKeys = keys) :
    bucketsOf keys (bucket :: buckets) = bucket :: bucketsOf keys buckets :=
  List.filter_cons_of_pos (p := fun b : Bucket => decide (b.groupKeys = keys))
    (decide_eq_true same)

theorem bucketsOf_cons_of_ne {buckets : List Bucket} (different : bucket.groupKeys ≠ keys) :
    bucketsOf keys (bucket :: buckets) = bucketsOf keys buckets :=
  List.filter_cons_of_neg (p := fun b : Bucket => decide (b.groupKeys = keys))
    (by rwa [decide_eq_true_eq])

theorem bucketsOf_updateAt (addr : Nat) (keeps : ∀ b, (f b).groupKeys = b.groupKeys) :
    bucketsOf keys (state.updateAt addr f).buckets =
      (bucketsOf keys state.buckets).map (fun b => if b.addr = addr then f b else b) := by
  unfold bucketsOf AggState.updateAt
  rw [List.filter_map]
  refine congrArg _ (List.filter_congr ?_)
  intro b _
  simp only [Function.comp_apply]
  split
  · rw [keeps]
  · rfl

/-- A search for a bucket of a group is a search among the buckets of the group. -/
theorem find?_labelled {fields : List String} {buckets : List Bucket}
    (labelled : ∀ bucket ∈ buckets, bucket.groupKeys = none ∨ KeysFit fields bucket.groupKeys)
    (fit : KeysFit fields keys) (p : Bucket → Bool) :
    buckets.find? (fun b => compareGroupKeys b.groupKeys keys (groupKeysCount keys) && p b) =
      (bucketsOf keys buckets).find? p := by
  unfold bucketsOf
  rw [List.find?_filter]
  refine List.find?_congr ?_
  intro bucket member
  rw [compareGroupKeys_labelled fit (labelled bucket member), Bool.decide_and, Bool.decide_eq_true,
    Bool.decide_eq_true]

theorem find?_group {fields : List String} {buckets : List Bucket}
    (fits : ∀ bucket ∈ buckets, KeysFit fields bucket.groupKeys) (fit : KeysFit fields keys)
    (p : Bucket → Bool) :
    buckets.find? (fun b => compareGroupKeys b.groupKeys keys (groupKeysCount keys) && p b) =
      (bucketsOf keys buckets).find? p :=
  find?_labelled (fun bucket member => .inr (fits bucket member)) fit p

/-- A search for no keys is a search of the whole list. Where it finds a bucket without keys, if it
    finds one, it is a search among those. -/
theorem find?_unkeyed {buckets : List Bucket} {p : Bucket → Bool}
    (own : ∀ bucket, buckets.find? p = some bucket → bucket.groupKeys = none) :
    buckets.find? (fun b => compareGroupKeys b.groupKeys none (groupKeysCount none) && p b) =
      (bucketsOf none buckets).find? p := by
  have whole : buckets.find? (fun b =>
      compareGroupKeys b.groupKeys none (groupKeysCount none) && p b) = buckets.find? p := rfl
  rw [whole]
  induction buckets with
  | nil => rfl
  | cons bucket buckets ih =>
      by_cases passes : p bucket = true
      · have unkeyed := own bucket (List.find?_cons_of_pos passes)
        rw [List.find?_cons_of_pos passes, bucketsOf_cons_of_eq unkeyed,
          List.find?_cons_of_pos passes]
      · rw [List.find?_cons_of_neg passes] at own ⊢
        rw [ih own rfl]
        by_cases unkeyed : bucket.groupKeys = none
        · rw [bucketsOf_cons_of_eq unkeyed, List.find?_cons_of_neg passes]
        · rw [bucketsOf_cons_of_ne unkeyed]

/-- An update at an address that is not in the list changes nothing. -/
theorem map_update_fresh {addr : Nat} {buckets : List Bucket}
    (fresh : addr ∉ buckets.map Bucket.addr) :
    buckets.map (fun b => if b.addr = addr then f b else b) = buckets := by
  refine (List.map_congr_left ?_).trans (List.map_id buckets)
  intro b member
  rw [if_neg]
  · rfl
  · intro same
    exact fresh (same ▸ List.mem_map_of_mem member)

/-- An update at the address of the first bucket of a group changes that bucket only. -/
theorem bucketsOf_updateAt_head {rest : List Bucket}
    (addrs : (state.buckets.map Bucket.addr).Nodup)
    (keeps : ∀ b, (f b).groupKeys = b.groupKeys)
    (head : bucketsOf keys state.buckets = bucket :: rest) :
    bucketsOf keys (state.updateAt bucket.addr f).buckets = f bucket :: rest := by
  rw [bucketsOf_updateAt bucket.addr keeps, head, List.map_cons, if_pos rfl]
  have sub : ((bucket :: rest).map Bucket.addr).Sublist (state.buckets.map Bucket.addr) := by
    rw [← head]
    exact List.filter_sublist.map _
  have fresh := (List.nodup_cons.mp (sub.nodup addrs)).1
  exact congrArg (f bucket :: ·) (map_update_fresh fresh)

/-- An update at the address of a bucket leaves the other groups alone. -/
theorem bucketsOf_updateAt_other (addrs : (state.buckets.map Bucket.addr).Nodup)
    (keeps : ∀ b, (f b).groupKeys = b.groupKeys) (member : bucket ∈ state.buckets)
    (different : bucket.groupKeys ≠ keys) :
    bucketsOf keys (state.updateAt bucket.addr f).buckets = bucketsOf keys state.buckets := by
  rw [bucketsOf_updateAt bucket.addr keeps]
  refine (List.map_congr_left ?_).trans (List.map_id _)
  intro other inside
  obtain ⟨otherMember, otherKeys⟩ := mem_bucketsOf.mp inside
  rw [if_neg]
  · rfl
  · intro same
    have equal := List.inj_on_of_nodup_map addrs otherMember member same
    exact different (equal ▸ otherKeys)

/-- An update that keeps group keys makes no new ones. -/
theorem updateAt_groupKeys {addr : Nat} (keeps : ∀ b, (f b).groupKeys = b.groupKeys)
    (member : bucket ∈ (state.updateAt addr f).buckets) :
    ∃ old ∈ state.buckets, bucket.groupKeys = old.groupKeys := by
  obtain ⟨old, inside, rfl⟩ := List.mem_map.mp member
  refine ⟨old, inside, ?_⟩
  by_cases here : old.addr = addr
  · rw [if_pos here, keeps]
  · rw [if_neg here]

end Update

/-! ## Events -/

variable {query : Aggregate} {state : AggState}

/-- The branches that assign an event to one bucket of a window emit nothing. -/
theorem aggregateEvent_single (wf : state.WellFormed query) (windowed : query.window.type ≠ .none)
    {event : Event} {now : Nat} {result : AggState × Bucket}
    (assigned : getOrCreateBucketsForEvent state (extractGroupKeys query.groupByFields event)
      (eventTimestamp event now) = some (singleBucket result)) (now' : Nat) :
    aggregateEvent state event now now' =
      some (result.1.updateAt result.2.addr (fun bucket =>
        updateBucketWithEvent query.window query.funcs bucket event now'), []) := by
  obtain ⟨found, bucket⟩ := result
  have kept : found.WellFormed query := wf.getOrCreate assigned
  rw [aggregateEvent, wf.groupByFields, assigned, wf.window]
  simp only [singleBucket, List.foldl_cons, List.foldl_nil, kept.window, kept.funcs]
  cases type : query.window.type with
  | none => exact absurd type windowed
  | session => rfl
  | tumbling => rfl
  | sliding => rfl

end Nblex
