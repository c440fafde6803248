import Nblex.Core.NqlExecutor.KeyMemory
import Nblex.Core.NqlExecutor.Proofs.FlushWalk
import Nblex.Core.NqlExecutor.Proofs.KeyArrays
import Mathlib.Data.List.Pairwise

/-!
# Where group keys can be taken by value

As long as no array of group keys has two owners, nothing freed is read and nothing is freed twice:
the executor in memory does what the executor does that has the keys by value. Only an event that
opens two sliding windows gives an array two owners.
-/

namespace Nblex

/-- The keys of every bucket can be read. -/
def KeyState.Readable (owning : KeyState) : Prop :=
  ∀ bucket ∈ owning.state.buckets, owning.readable bucket

namespace KeyMemory

variable {owning : KeyState} {query : Aggregate}

/-! ## Arrays -/

theorem allocated_iff {arrays : Ledger} {array : Option Nat} :
    allocated arrays array ↔ ∀ handle, array = some handle → arrays.released handle = 0 := by
  cases array with
  | none => exact ⟨fun _ => nofun, fun _ => rfl⟩
  | some handle =>
      simp only [allocated, beq_iff_eq, Option.some.injEq]
      exact ⟨fun zero _ same => same ▸ zero, fun zero => zero handle rfl⟩

/-- What is left after some keys are freed. -/
theorem allocated_freeGroupKeys {arrays : Ledger} {array : Option Nat}
    (issued : ∀ handle, array = some handle → handle < arrays.next) (other : Option Nat) :
    allocated (freeGroupKeys arrays array) other ↔
      allocated arrays other ∧ ∀ handle, array = some handle → other ≠ some handle := by
  obtain ⟨-, released⟩ := KeyState.freeGroupKeys_spec issued
  rw [allocated_iff, allocated_iff]
  constructor
  · intro kept
    refine ⟨fun handle same => ?_, fun handle freed same => ?_⟩
    · exact (Nat.add_eq_zero_iff.mp ((released handle).symm.trans (kept handle same))).1
    · have none := (released handle).symm.trans (kept handle same)
      rw [if_pos freed] at none
      exact absurd none (Nat.succ_ne_zero _)
  · rintro ⟨kept, apart⟩ handle same
    rw [released, kept handle same, if_neg (fun freed => apart handle freed same)]

theorem readable_eq (bucket : Bucket) :
    owning.readable bucket = allocated owning.arrays (owning.keysAt bucket.addr) := rfl

theorem readable_of_owned (owned : owning.KeysOwned) : owning.Readable := fun bucket member =>
  allocated_iff.mpr (owned.valid bucket member)

/-! ## Searches -/

theorem search_eq {keys : Option (List String)} (test : Bucket → Bool) {buckets : List Bucket}
    (readable : ∀ bucket ∈ buckets, owning.readable bucket) :
    search owning keys test buckets = some (buckets.find? fun bucket =>
      compareGroupKeys bucket.groupKeys keys (groupKeysCount keys) && test bucket) := by
  induction buckets with
  | nil => rfl
  | cons bucket buckets ih =>
      obtain ⟨here, later⟩ := List.forall_mem_cons.mp readable
      rw [search, if_pos (.inr here), List.find?_cons]
      cases compareGroupKeys bucket.groupKeys keys (groupKeysCount keys) && test bucket with
      | true => rfl
      | false => exact ih later

theorem findBucketByWindow_eq (readable : owning.Readable) (keys : Option (List String))
    (windowStart : Nat) : findBucketByWindow owning keys windowStart =
      some (Nblex.findBucketByWindow owning.state keys windowStart) :=
  search_eq (fun bucket => bucket.windowStartNs == windowStart) readable

theorem readable_create (fresh : ∀ bucket ∈ owning.state.buckets,
    bucket.addr < owning.state.nextAddr) (readable : owning.Readable) {array : Option Nat}
    (there : allocated owning.arrays array) (keys : Option (List String)) (ws we : Nat) :
    (owning.createBucketWithWindow keys array ws we).1.Readable := by
  intro bucket member
  rcases List.mem_cons.mp member with rfl | old
  · have new : (owning.createBucketWithWindow keys array ws we).1.keysAt owning.state.nextAddr =
        array := Function.update_self _ _ _
    exact (congrArg (allocated owning.arrays) new).trans there
  · have same : (owning.createBucketWithWindow keys array ws we).1.keysAt bucket.addr =
        owning.keysAt bucket.addr := Function.update_of_ne (Nat.ne_of_lt (fresh bucket old)) _ _
    exact (congrArg (allocated owning.arrays) same).trans (readable bucket old)

/-- The loop frees nothing, so that the keys of all buckets stay. -/
theorem slidingLoop_eq (keys : Option (List String)) (array : Option Nat)
    (timestamp windowSize slide : Nat) :
    ∀ (fuel : Nat) (owning : KeyState) (owned : Bool) (current : Nat),
      (∀ bucket ∈ owning.state.buckets, bucket.addr < owning.state.nextAddr) →
      owning.Readable → allocated owning.arrays array →
      slidingLoop keys array timestamp windowSize slide fuel owning owned current =
        some (KeyState.slidingLoop keys array timestamp windowSize slide fuel owning owned
          current) := by
  intro fuel
  induction fuel with
  | zero =>
      intro owning owned current fresh readable there
      rfl
  | succ fuel ih =>
      intro owning owned current fresh readable there
      rw [slidingLoop, KeyState.slidingLoop]
      by_cases inside : current ≤ timestamp ∧ timestamp < u64Add current windowSize
      · rw [if_pos inside, if_pos inside, findBucketByWindow_eq readable]
        cases Nblex.findBucketByWindow owning.state keys current with
        | some bucket =>
            dsimp only
            rw [ih owning owned (u64Add current slide) fresh readable there]
            rfl
        | none =>
            have fresh' : ∀ bucket ∈ (owning.createBucketWithWindow keys array current
                (u64Add current windowSize)).1.state.buckets, bucket.addr <
                  (owning.createBucketWithWindow keys array current
                    (u64Add current windowSize)).1.state.nextAddr := by
              intro bucket member
              rcases List.mem_cons.mp member with rfl | old
              · exact Nat.lt_succ_self _
              · exact Nat.lt_succ_of_lt (fresh bucket old)
            dsimp only
            rw [ih _ true (u64Add current slide) fresh' (readable_create fresh readable there _ _ _)
              there]
            rfl
      · rw [if_neg inside, if_neg inside]

theorem getOrCreateBucketsForEvent_eq (fresh : ∀ bucket ∈ owning.state.buckets,
    bucket.addr < owning.state.nextAddr) (readable : owning.Readable) {array : Option Nat}
    (there : allocated owning.arrays array) (keys : Option (List String)) (timestamp : Nat) :
    getOrCreateBucketsForEvent owning keys array timestamp =
      owning.getOrCreateBucketsForEvent keys array timestamp := by
  rw [getOrCreateBucketsForEvent, KeyState.getOrCreateBucketsForEvent]
  dsimp only
  cases owning.state.window.type with
  | none =>
      dsimp only
      rw [search_eq _ readable]
      simp only [Option.map_some, Bool.and_assoc]
  | session =>
      dsimp only
      rw [search_eq _ readable]
      simp only [Option.map_some, Bool.and_assoc]
  | tumbling =>
      simp only [findBucketByWindow_eq readable, Option.map_some]
      cases u64Div timestamp (windowSizeNs owning.state.window) <;> rfl
  | sliding =>
      dsimp only
      rw [slidingBuckets, KeyState.slidingBuckets]
      by_cases divides : slideNs owning.state.window = 0
      · rw [if_pos divides, if_pos divides]
      · rw [if_neg divides, if_neg divides, slidingLoop_eq keys array timestamp _ _ _ owning false _
          fresh readable there]
        rfl

/-! ## An event -/

theorem allocKeys_keysAt (keys : Option (List String)) :
    (owning.allocKeys keys).1.keysAt = owning.keysAt := by
  cases keys <;> rfl

/-- An event that opens at most one sliding window leaves every array with one owner. -/
theorem aggregateEvent_keysOwned (sound : owning.Sound query) (owned : owning.KeysOwned)
    {event : Event} {now now' : Nat} {after : KeyState}
    (ran : owning.aggregateEvent event now now' = some after)
    (opens : query.window.type = .sliding →
      ∀ keys, extractGroupKeys query.groupByFields event = some keys →
        (KeyState.openedWindows owning.state (some keys) (eventTimestamp event now)).card ≤ 1) :
    after.KeysOwned := by
  obtain ⟨kept, -, accounts⟩ := KeyState.aggregateEvent_steps sound ran
  refine (KeyState.keysOwned_iff kept).mpr (accounts.totals_iff.mpr ⟨?_, ?_⟩)
  · exact (KeyState.keysOwned_iff sound).mp owned
  · exact (KeyState.eventOwners_iff query sound.wellFormed event now).mpr opens

/-- The keys of an event are allocated before any bucket is compared with them. -/
theorem getOrCreate_allocKeys (sound : owning.Sound query) (owned : owning.KeysOwned)
    (keys : Option (List String)) (timestamp : Nat) :
    getOrCreateBucketsForEvent (owning.allocKeys keys).1 keys (owning.allocKeys keys).2 timestamp =
      (owning.allocKeys keys).1.getOrCreateBucketsForEvent keys (owning.allocKeys keys).2
        timestamp := by
  have state : (owning.allocKeys keys).1.state = owning.state := KeyState.allocKeys_state keys
  apply getOrCreateBucketsForEvent_eq
  · rw [state]
    exact sound.wellFormed.fresh
  · intro bucket member
    rw [state] at member
    rw [KeyState.readable, allocKeys_keysAt]
    cases keys with
    | none => exact readable_of_owned owned bucket member
    | some keys => exact readable_of_owned owned bucket member
  · refine allocated_iff.mpr fun handle here => ?_
    cases keys with
    | none => cases here
    | some keys =>
        obtain rfl := Option.some.inj here
        exact @Ledger.released_of_le owning.arrays _ (Nat.le_refl _)

/-- Where every array has one owner an event is taken in as it is by value. -/
theorem aggregateEvent_eq (sound : owning.Sound query) (owned : owning.KeysOwned) (event : Event)
    (now now' : Nat) :
    (aggregateEvent owning event now now').map (fun result => (result.1.state, result.2)) =
        Nblex.aggregateEvent owning.state event now now' ∧
      (aggregateEvent owning event now now').map Prod.fst =
        owning.aggregateEvent event now now' := by
  generalize extracted : extractGroupKeys owning.state.groupByFields event = keys
  have forgotten := @KeyState.getOrCreate_forget (owning.allocKeys keys).1 keys
    (owning.allocKeys keys).2 (eventTimestamp event now)
  rw [KeyState.allocKeys_state] at forgotten
  rw [aggregateEvent, Nblex.aggregateEvent, KeyState.aggregateEvent, extracted]
  dsimp only
  rw [getOrCreate_allocKeys sound owned, ← forgotten]
  cases got : (owning.allocKeys keys).1.getOrCreateBucketsForEvent keys (owning.allocKeys keys).2
      (eventTimestamp event now) with
  | none => exact ⟨rfl, rfl⟩
  | some result =>
      obtain ⟨found, buckets⟩ := result
      -- only the query without a window emits, and it opens no sliding window
      have ran : owning.aggregateEvent event now now' = some { found with
          state := buckets.foldl (fun state bucket => state.updateAt bucket.addr
            (fun bucket => updateBucketWithEvent state.window state.funcs bucket event now'))
            found.state } := by
        rw [KeyState.aggregateEvent, extracted, got]
      cases type : owning.state.window.type with
      | none =>
          have after := aggregateEvent_keysOwned sound owned ran fun sliding => by
            rw [sound.wellFormed.window, sliding] at type
            cases type
          cases buckets with
          | nil => exact ⟨rfl, rfl⟩
          | cons bucket buckets =>
              dsimp only
              rw [if_pos]
              · exact ⟨rfl, rfl⟩
              · refine List.all_eq_true.mpr fun emitted member => ?_
                refine readable_of_owned after emitted ?_
                exact List.mem_of_find?_eq_some (Option.mem_toList.mp member)
      | session => exact ⟨rfl, rfl⟩
      | tumbling => exact ⟨rfl, rfl⟩
      | sliding => exact ⟨rfl, rfl⟩

/-! ## A tick -/

/-- The keys that the turns of a flush read and free are there when they do so. -/
def flushReads (window : Window) (now : Nat) (keysAt : Nat → Option Nat) (arrays : Ledger) :
    List Bucket → Bool
  | [] => true
  | bucket :: rest =>
      match flushBucket window now bucket with
      | none => false
      | some step =>
          !((step.shouldFlush || step.shouldRemove) && !allocated arrays (keysAt bucket.addr)) &&
            flushReads window now keysAt
              (if step.shouldRemove then freeGroupKeys arrays (keysAt bucket.addr) else arrays)
              rest

theorem flushReads_cons {window : Window} {now : Nat} {bucket : Bucket} {step : FlushStep}
    (stepped : flushBucket window now bucket = some step) (keysAt : Nat → Option Nat)
    (arrays : Ledger) (rest : List Bucket) :
    flushReads window now keysAt arrays (bucket :: rest) =
      (!((step.shouldFlush || step.shouldRemove) && !allocated arrays (keysAt bucket.addr)) &&
        flushReads window now keysAt
          (if step.shouldRemove then freeGroupKeys arrays (keysAt bucket.addr) else arrays)
          rest) := by
  rw [flushReads, stepped]

/-- The walk in memory is the walk by value, as long as the keys are there. The induction is on the
    cells to come, as it is for the walk by value. -/
theorem flushWalk_eq {now : Nat} (rest : List Bucket) :
    ∀ (done : List Bucket) (owning : KeyState) (fuel : Nat), owning.state.buckets = done ++ rest →
      ((done ++ rest).map Bucket.addr).Nodup → rest.length < fuel →
      flushWalk now fuel owning (rest.head?.map Bucket.addr) =
        if flushReads owning.state.window now owning.keysAt owning.arrays rest then
          (Nblex.flushWalk now fuel owning.state (rest.head?.map Bucket.addr)).map fun result =>
            ({ owning with
              state := result.1
              arrays := flushKeys owning.state.window now owning.keysAt owning.arrays rest },
              result.2)
        else none := by
  induction rest with
  | nil =>
      intro done owning fuel list distinct enough
      rw [flushReads, if_pos rfl, List.head?_nil, Option.map_none, flushWalk, Nblex.flushWalk]
      rfl
  | cons bucket rest ih =>
      intro done owning fuel list distinct enough
      obtain ⟨fuel, rfl⟩ : ∃ n, fuel = n + 1 :=
        ⟨fuel - 1, by rw [List.length_cons] at enough; omega⟩
      rw [List.head?_cons, Option.map_some, flushWalk, Nblex.flushWalk, list,
        Chain.node?_here distinct, Chain.next?_here distinct]
      dsimp only
      cases stepped : flushBucket owning.state.window now bucket with
      | none =>
          dsimp only
          rw [Option.map_none, ite_self]
      | some step =>
          dsimp only
          have same : step.bucket.addr = bucket.addr := (flushBucket_keeps stepped).1
          have turn := flushTurn_here list distinct stepped
          have next := ih (done ++ if step.shouldRemove then [] else [step.bucket])
            (flushTurn owning bucket.addr step) fuel
            (by rw [flushTurn, turn, List.append_assoc])
            (flushTurn_distinct distinct same)
            (by rw [List.length_cons] at enough; omega)
          have window : (flushTurn owning bucket.addr step).state.window = owning.state.window := by
            rw [flushTurn, turn]
          rw [next, window, flushReads_cons stepped, KeyState.flushKeys_cons stepped, ← readable_eq]
          by_cases blocked : ((step.shouldFlush || step.shouldRemove) && !owning.readable bucket) =
              true
          · rw [if_pos blocked, blocked]
            rfl
          · rw [if_neg blocked, Bool.eq_false_of_not_eq_true blocked, Bool.not_false, Bool.true_and]
            refine (apply_ite _ _ _ _).trans ?_
            rw [Option.map_none, Option.map_map, Option.map_map]
            rfl

/-- The callback in memory is the callback by value, as long as the keys are there. -/
theorem windowFlushCb_eq (distinct : (owning.state.buckets.map Bucket.addr).Nodup) (now : Nat) :
    windowFlushCb owning now =
      if flushReads owning.state.window now owning.keysAt owning.arrays owning.state.buckets then
        (Nblex.windowFlushCb owning.state now).map fun result =>
          ({ owning with
            state := result.1
            arrays := flushKeys owning.state.window now owning.keysAt owning.arrays
              owning.state.buckets }, result.2)
      else none := by
  rw [windowFlushCb, flushWalk_eq owning.state.buckets [] owning _ rfl distinct
    (Nat.lt_succ_self _), ← windowFlushWalk_eq distinct, windowFlushWalk]
  cases flushReads _ _ _ _ owning.state.buckets with
  | false => rfl
  | true =>
      simp only [if_true, Option.map_map]
      rfl

/-- The first bucket's array is not the second's. -/
def KeysApart (keysAt : Nat → Option Nat) (bucket other : Bucket) : Prop :=
  ∀ handle, keysAt bucket.addr = some handle → keysAt other.addr ≠ some handle

theorem KeysApart.symm {keysAt : Nat → Option Nat} {bucket other : Bucket}
    (apart : KeysApart keysAt bucket other) : KeysApart keysAt other bucket :=
  fun handle there here => apart handle here there

/-- The keys are there when they are read just in case they were before the flush and no bucket that
    is removed shares its keys with a later one that is reported or removed. -/
theorem flushReads_iff {window : Window} {now : Nat} {keysAt : Nat → Option Nat}
    {turn : Bucket → FlushStep} {buckets : List Bucket} :
    ∀ {arrays : Ledger}, (∀ bucket ∈ buckets, flushBucket window now bucket = some (turn bucket)) →
      (∀ bucket ∈ buckets, ∀ handle, keysAt bucket.addr = some handle → handle < arrays.next) →
      (flushReads window now keysAt arrays buckets ↔
        (∀ bucket ∈ buckets, (turn bucket).shouldFlush || (turn bucket).shouldRemove →
          allocated arrays (keysAt bucket.addr)) ∧
        buckets.Pairwise fun bucket other => (turn bucket).shouldRemove →
          (turn other).shouldFlush || (turn other).shouldRemove →
            KeysApart keysAt bucket other) := by
  induction buckets with
  | nil =>
      intro arrays total known
      exact iff_of_true rfl ⟨nofun, .nil⟩
  | cons bucket rest ih =>
      intro arrays total known
      obtain ⟨here, later⟩ := List.forall_mem_cons.mp total
      obtain ⟨issued, issuedLater⟩ := List.forall_mem_cons.mp known
      have next : ∀ removed : Bool,
          (if removed then freeGroupKeys arrays (keysAt bucket.addr) else arrays).next =
            arrays.next := by
        intro removed
        cases removed with
        | true => exact (KeyState.freeGroupKeys_spec issued).1
        | false => rfl
      have head : (!(((turn bucket).shouldFlush || (turn bucket).shouldRemove) &&
          !allocated arrays (keysAt bucket.addr))) = true ↔
            ((turn bucket).shouldFlush || (turn bucket).shouldRemove →
              allocated arrays (keysAt bucket.addr)) := by
        cases (turn bucket).shouldFlush || (turn bucket).shouldRemove with
        | true => simp
        | false => simp
      rw [flushReads_cons here, Bool.and_eq_true, ih later (by rwa [next]), head,
        List.forall_mem_cons, List.pairwise_cons]
      cases (turn bucket).shouldRemove with
      | false =>
          simp only [Bool.false_eq_true, if_false, false_imp_iff, implies_true, true_and, and_assoc]
      | true =>
          simp only [if_true, true_imp_iff, allocated_freeGroupKeys issued]
          constructor
          · rintro ⟨first, kept, pairs⟩
            refine ⟨⟨first, fun other member touched => (kept other member touched).1⟩, ?_, pairs⟩
            exact fun other member touched => (kept other member touched).2
          · rintro ⟨⟨first, kept⟩, apart, pairs⟩
            refine ⟨first, fun other member touched => ⟨kept other member touched, ?_⟩, pairs⟩
            exact apart other member touched

/-- What a flush leaves of the arrays. -/
theorem allocated_flushKeys {window : Window} {now : Nat} {keysAt : Nat → Option Nat}
    {turn : Bucket → FlushStep} (array : Option Nat) {buckets : List Bucket} :
    ∀ {arrays : Ledger}, (∀ bucket ∈ buckets, flushBucket window now bucket = some (turn bucket)) →
      (∀ bucket ∈ buckets, ∀ handle, keysAt bucket.addr = some handle → handle < arrays.next) →
      (allocated (flushKeys window now keysAt arrays buckets) array ↔
        allocated arrays array ∧ ∀ bucket ∈ buckets, (turn bucket).shouldRemove →
          ∀ handle, keysAt bucket.addr = some handle → array ≠ some handle) := by
  induction buckets with
  | nil =>
      intro arrays total known
      exact ⟨fun there => ⟨there, nofun⟩, And.left⟩
  | cons bucket rest ih =>
      intro arrays total known
      obtain ⟨here, later⟩ := List.forall_mem_cons.mp total
      obtain ⟨issued, issuedLater⟩ := List.forall_mem_cons.mp known
      rw [KeyState.flushKeys_cons here, List.forall_mem_cons]
      cases (turn bucket).shouldRemove with
      | false =>
          rw [if_neg Bool.false_ne_true, ih later issuedLater]
          simp only [Bool.false_eq_true, false_imp_iff, true_and]
      | true =>
          obtain ⟨next, -⟩ := KeyState.freeGroupKeys_spec issued
          rw [if_pos rfl, ih later (by rwa [next]), allocated_freeGroupKeys issued, and_assoc]
          simp only [true_imp_iff]

/-- A flush that reports only what it removes finds the keys there and leaves those of the other
    buckets alone just in case the removed buckets share their keys with no other. -/
theorem flush_alone_iff {window : Window} {now : Nat} {keysAt : Nat → Option Nat}
    {turn : Bucket → FlushStep} {buckets : List Bucket} {arrays : Ledger}
    (distinct : (buckets.map Bucket.addr).Nodup)
    (total : ∀ bucket ∈ buckets, flushBucket window now bucket = some (turn bucket))
    (known : ∀ bucket ∈ buckets, ∀ handle, keysAt bucket.addr = some handle →
      handle < arrays.next)
    (reports : ∀ bucket, (turn bucket).shouldFlush → (turn bucket).shouldRemove) :
    (flushReads window now keysAt arrays buckets ∧
        ∀ bucket ∈ buckets, (turn bucket).shouldRemove = false →
          allocated (flushKeys window now keysAt arrays buckets) (keysAt bucket.addr) =
            allocated arrays (keysAt bucket.addr)) ↔
      ∀ bucket ∈ buckets, (turn bucket).shouldRemove →
        allocated arrays (keysAt bucket.addr) ∧
          ∀ other ∈ buckets, other.addr ≠ bucket.addr → KeysApart keysAt bucket other := by
  have touched : ∀ bucket, ((turn bucket).shouldFlush || (turn bucket).shouldRemove) = true ↔
      (turn bucket).shouldRemove = true := by
    intro bucket
    rw [Bool.or_eq_true]
    exact ⟨fun either => either.elim (reports bucket) id, .inr⟩
  rw [flushReads_iff total known]
  simp only [touched]
  constructor
  · rintro ⟨⟨there, apart⟩, keeps⟩ bucket member removed
    refine ⟨there bucket member removed, fun other inside different => ?_⟩
    cases stays : (turn other).shouldRemove with
    | true =>
        have symmetric : Std.Symm fun bucket other => (turn bucket).shouldRemove = true →
            (turn other).shouldRemove = true → KeysApart keysAt bucket other :=
          ⟨fun _ _ pair second first => (pair first second).symm⟩
        have ne : bucket ≠ other := fun same => different (congrArg Bucket.addr same.symm)
        exact apart.forall member inside ne removed stays
    | false =>
        -- the keys of a bucket that stays would be freed with those of the removed one
        intro handle here shares
        have kept := keeps other inside stays
        have before := there bucket member removed
        rw [here, ← shares] at before
        rw [before, allocated_flushKeys _ total known] at kept
        exact kept.2 bucket member removed handle here shares
  · intro alone
    have apart : ∀ bucket ∈ buckets, ∀ other ∈ buckets, bucket ≠ other →
        (turn bucket).shouldRemove = true → KeysApart keysAt bucket other :=
      fun bucket member other inside ne removed => (alone bucket member removed).2 other inside
        fun same => ne (List.inj_on_of_nodup_map distinct inside member same).symm
    refine ⟨⟨fun bucket member removed => (alone bucket member removed).1, ?_⟩, ?_⟩
    · exact (List.Nodup.of_map _ distinct).pairwise_of_forall_ne
        fun bucket member other inside ne removed _ => apart bucket member other inside ne removed
    · intro other inside stays
      rw [Bool.eq_iff_iff, allocated_flushKeys _ total known]
      refine ⟨And.left, fun there => ⟨there, fun bucket member removed => ?_⟩⟩
      refine apart bucket member other inside (fun same => ?_) removed
      rw [← same, removed] at stays
      cases stays

/-- Where every array has one owner no two buckets share their keys. -/
theorem apart_of_owned (owned : owning.KeysOwned) :
    owning.state.buckets.Pairwise (KeysApart owning.keysAt) := by
  refine List.pairwise_iff_forall_sublist.mpr fun {bucket other} sub handle here there => ?_
  have both := (sub.map Bucket.addr).countP_le (p := fun addr =>
    decide (owning.keysAt addr = some handle))
  have twice : [bucket.addr, other.addr].countP (fun addr =>
      decide (owning.keysAt addr = some handle)) = 2 := by simp [here, there]
  have single := owned.single handle
  rw [KeyState.references] at single
  rw [List.map_cons, List.map_cons, List.map_nil, twice] at both
  omega

/-- Where every array has one owner a flush does what it does by value. -/
theorem windowFlushCb_owned (sound : owning.Sound query) (owned : owning.KeysOwned) (now : Nat) :
    (windowFlushCb owning now).map (fun result => (result.1.state, result.2)) =
        Nblex.windowFlushCb owning.state now ∧
      (windowFlushCb owning now).map Prod.fst = owning.windowFlushCb now := by
  have total : ∀ bucket ∈ owning.state.buckets, flushBucket owning.state.window now bucket =
      some ((flushBucket owning.state.window now bucket).getD ⟨bucket, false, false⟩) := by
    intro bucket member
    rw [sound.wellFormed.window]
    obtain ⟨step, stepped⟩ := flushBucket_total (sound.wellFormed.shape bucket member) now
    rw [stepped, Option.getD_some]
  have reads := (flushReads_iff total sound.known).mpr
    ⟨fun bucket member _ => readable_of_owned owned bucket member,
      (apart_of_owned owned).imp fun apart _ _ => apart⟩
  rw [windowFlushCb_eq sound.wellFormed.addrs, if_pos reads, KeyState.windowFlushCb]
  cases Nblex.windowFlushCb owning.state now with
  | none => exact ⟨rfl, rfl⟩
  | some result => exact ⟨rfl, rfl⟩

/-! ## Runs -/

section Runs

variable [Pcre2]

/-- Where every array has one owner a step in memory is the step by value, and the handles change as
    they do in the executor that only counts. -/
theorem step_eq (sound : owning.Sound query) (owned : owning.KeysOwned) (op : AggOp) :
    (step query owning op).map (fun result => (result.1.state, result.2)) =
        aggStep query owning.state op ∧
      (step query owning op).map Prod.fst = owning.run query op := by
  cases op with
  | tick now => exact windowFlushCb_owned sound owned now
  | event event now now' =>
      rw [step, aggStep, executeAggregate, KeyState.run]
      by_cases accepts : whereAccepts query event = true
      · rw [if_pos accepts, if_pos accepts, if_pos accepts]
        exact aggregateEvent_eq sound owned event now now'
      · rw [if_neg accepts, if_neg accepts, if_neg accepts]
        exact ⟨rfl, rfl⟩

theorem run_running (sound : owning.Sound query) {op : AggOp} {after : KeyState}
    (ran : owning.run query op = some after) : after.running = owning.running := by
  cases op with
  | tick now => exact (KeyState.windowFlushCb_steps sound ran).2.1
  | event event now now' =>
      rw [KeyState.run] at ran
      by_cases accepts : whereAccepts query event = true
      · rw [if_pos accepts] at ran
        exact (KeyState.aggregateEvent_steps sound ran).2.1
      · rw [if_neg accepts] at ran
        rw [← Option.some.inj ran]

/-- What holds between the steps of a run that opens one sliding window at a time. -/
structure Owned (query : Aggregate) (owning : KeyState) : Prop where
  sound : owning.Sound query
  owned : owning.KeysOwned
  running : owning.running = true

omit [Pcre2] in
theorem newKeyState_owned (query : Aggregate) : Owned query (newKeyState query) where
  sound := KeyState.newKeyState_sound query
  owned := KeyState.newKeyState_keysOwned query
  running := rfl

/-- A step that opens at most one window and has a result. -/
theorem Owned.step (inv : Owned query owning) {op : AggOp}
    (opens : KeyState.OpensOne query owning op) {after : KeyState} {emitted : List Bucket}
    (stepped : step query owning op = some (after, emitted)) :
    Owned query after ∧ keyStep query owning op = after ∧
      aggStep query owning.state op = some (after.state, emitted) := by
  obtain ⟨byValue, counting⟩ := step_eq inv.sound inv.owned op
  rw [stepped, Option.map_some] at byValue counting
  have same : keyStep query owning op = after := by
    rw [keyStep, if_pos inv.running, ← counting, Option.getD_some]
  refine ⟨⟨?_, ?_, ?_⟩, same, byValue.symm⟩
  · exact same ▸ KeyState.keyStep_sound query inv.sound op
  · exact same ▸ (KeyState.keyStep_keysOwned_iff query inv.sound op).mpr ⟨inv.owned, opens⟩
  · exact (run_running inv.sound counting.symm).trans inv.running

/-- As long as no event opens two sliding windows at once, a run is the run by value. -/
theorem run_eq_aggRun {ops : List AggOp}
    (opens : Guarded.Meets (keyStep query) (KeyState.OpensOne query) (newKeyState query) ops) :
    (run query ops).map (fun result => (result.1.state, result.2)) = aggRun query ops := by
  have general : ∀ (ops : List AggOp) (owning : KeyState), Owned query owning →
      Guarded.Meets (keyStep query) (KeyState.OpensOne query) owning ops →
      (Isolation.run (step query) owning ops).map (fun result => (result.1.state, result.2)) =
        Isolation.run (aggStep query) owning.state ops := by
    intro ops
    induction ops with
    | nil =>
        intro owning inv opens
        rfl
    | cons op ops ih =>
        intro owning inv opens
        rw [Isolation.run, Isolation.run, ← (step_eq inv.sound inv.owned op).1]
        cases stepped : step query owning op with
        | none => rfl
        | some result =>
            obtain ⟨after, emitted⟩ := result
            obtain ⟨kept, same, -⟩ := inv.step opens.1 stepped
            rw [Option.map_some]
            dsimp only
            rw [← ih after kept (same ▸ opens.2), Option.map_map, Option.map_map]
            rfl
  rw [aggRun, aggRunFrom_eq_run, run]
  exact general ops (newKeyState query) (newKeyState_owned query) opens

/-- A query without sliding windows is executed as by value in every run. -/
theorem run_eq_aggRun_of_type (type : query.window.type ≠ .sliding) (ops : List AggOp) :
    (run query ops).map (fun result => (result.1.state, result.2)) = aggRun query ops := by
  have opens : ∀ (ops : List AggOp) (owning : KeyState),
      Guarded.Meets (keyStep query) (KeyState.OpensOne query) owning ops := by
    intro ops
    induction ops with
    | nil =>
        intro owning
        trivial
    | cons op ops ih =>
        intro owning
        refine ⟨?_, ih _⟩
        cases op with
        | tick now => trivial
        | event event now now' => exact fun _ _ sliding => absurd sliding type
  exact run_eq_aggRun (opens ops (newKeyState query))

end Runs

end KeyMemory

end Nblex
