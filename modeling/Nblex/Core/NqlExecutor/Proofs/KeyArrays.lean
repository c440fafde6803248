import Nblex.Core.NqlExecutor.KeyOwnership
import Nblex.Core.NqlExecutor.Proofs.GroupIsolation
import Nblex.Misc.Guarded
import Nblex.Parsers.NqlParser
import Mathlib.Data.Finset.Card

/-!
# Owners of group-key arrays

Every array has one owner or has been freed once. An event frees its keys or gives them to a
bucket; only an event that opens several sliding windows gives them to several buckets, and a
flush then frees them once for each.
-/

namespace Nblex

namespace KeyState

/-- How many live buckets refer to an array. -/
def references (owning : KeyState) (handle : Nat) : Nat :=
  (owning.state.buckets.map Bucket.addr).countP fun addr =>
    decide (owning.keysAt addr = some handle)

/-- Every array belongs to one live bucket, whose keys are still there, or has been freed once. -/
structure KeysOwned (owning : KeyState) : Prop where
  single : ∀ handle, owning.references handle ≤ 1
  valid : ∀ bucket ∈ owning.state.buckets, ∀ handle, owning.keysAt bucket.addr = some handle →
    owning.arrays.released handle = 0
  once : ∀ handle < owning.arrays.next, owning.references handle = 0 →
    owning.arrays.released handle = 1

/-- The references to an array and its releases. -/
def total (owning : KeyState) (handle : Nat) : Nat :=
  owning.references handle + owning.arrays.released handle

/-- What holds of every state, whatever the events. -/
structure Sound (query : Aggregate) (owning : KeyState) : Prop where
  wellFormed : owning.state.WellFormed query
  known : ∀ bucket ∈ owning.state.buckets, ∀ handle, owning.keysAt bucket.addr = some handle →
    handle < owning.arrays.next

variable {query : Aggregate} {owning : KeyState}

theorem references_pos {bucket : Bucket} (member : bucket ∈ owning.state.buckets) {handle : Nat}
    (refers : owning.keysAt bucket.addr = some handle) : 0 < owning.references handle := by
  refine List.countP_pos_iff.mpr ⟨bucket.addr, List.mem_map_of_mem member, ?_⟩
  exact decide_eq_true refers

theorem references_eq_zero (sound : owning.Sound query) {handle : Nat}
    (fresh : owning.arrays.next ≤ handle) : owning.references handle = 0 := by
  refine List.countP_eq_zero.mpr fun addr member => ?_
  obtain ⟨bucket, inside, rfl⟩ := List.mem_map.mp member
  have below := sound.known bucket inside handle
  simp only [decide_eq_true_eq]
  exact fun refers => Nat.not_lt.mpr fresh (below refers)

theorem keysOwned_iff (sound : owning.Sound query) :
    owning.KeysOwned ↔ ∀ handle < owning.arrays.next, owning.total handle = 1 := by
  constructor
  · intro owned handle issued
    rcases Nat.eq_zero_or_pos (owning.references handle) with none | some
    · rw [total, none, owned.once handle issued none]
    · obtain ⟨addr, member, refers⟩ := List.countP_pos_iff.mp some
      obtain ⟨bucket, inside, rfl⟩ := List.mem_map.mp member
      rw [total, owned.valid bucket inside handle (of_decide_eq_true refers)]
      exact Nat.le_antisymm (owned.single handle) some
  · intro totals
    refine ⟨fun handle => ?_, fun bucket member handle refers => ?_, fun handle issued none => ?_⟩
    · by_cases issued : handle < owning.arrays.next
      · have one := totals handle issued
        rw [total] at one
        omega
      · rw [references_eq_zero sound (Nat.not_lt.mp issued)]
        exact Nat.zero_le 1
    · have one := totals handle (sound.known bucket member handle refers)
      have here := references_pos member refers
      rw [total] at one
      omega
    · have one := totals handle issued
      rwa [total, none, Nat.zero_add] at one

/-! ## Creating buckets -/

/-- From `before` to `after` an array comes to be referred to by so many buckets more and is freed
    so many times more, and no other array is concerned. -/
structure Gains (before after : KeyState) (array : Option Nat) (references releases : Nat) :
    Prop where
  next : after.arrays.next = before.arrays.next
  references : ∀ handle, after.references handle =
    before.references handle + if array = some handle then references else 0
  released : ∀ handle, after.arrays.released handle =
    before.arrays.released handle + if array = some handle then releases else 0
  known : ∀ bucket ∈ after.state.buckets, bucket ∈ before.state.buckets ∧
    after.keysAt bucket.addr = before.keysAt bucket.addr ∨ after.keysAt bucket.addr = array
  running : after.running = before.running

theorem gains_refl (owning : KeyState) (array : Option Nat) : Gains owning owning array 0 0 :=
  ⟨rfl, by simp, by simp, fun _ member => .inl ⟨member, rfl⟩, rfl⟩

theorem Gains.trans {first second third : KeyState} {array : Option Nat} {m n m' n' : Nat}
    (left : Gains first second array m n) (right : Gains second third array m' n') :
    Gains first third array (m + m') (n + n') where
  next := right.next.trans left.next
  references := by
    intro handle
    rw [right.references, left.references]
    split <;> omega
  released := by
    intro handle
    rw [right.released, left.released]
    split <;> omega
  known := by
    intro bucket member
    rcases right.known bucket member with ⟨old, same⟩ | new
    · rcases left.known bucket old with ⟨older, same'⟩ | new
      · exact .inl ⟨older, same.trans same'⟩
      · exact .inr (same.trans new)
    · exact .inr new
  running := right.running.trans left.running

theorem freeGroupKeys_spec {arrays : Ledger} {array : Option Nat}
    (issued : ∀ handle, array = some handle → handle < arrays.next) :
    (freeGroupKeys arrays array).next = arrays.next ∧ ∀ handle,
      (freeGroupKeys arrays array).released handle =
        arrays.released handle + if array = some handle then 1 else 0 := by
  cases array with
  | none => exact ⟨rfl, fun _ => rfl⟩
  | some handle =>
      refine ⟨Ledger.release_next _ _, fun other => ?_⟩
      refine (Ledger.release_released (issued handle rfl) other).trans (congrArg _ ?_)
      by_cases same : handle = other
      · simp [same]
      · simp [same]

theorem gains_freeKeys {array : Option Nat} (issued : ∀ handle, array = some handle →
    handle < owning.arrays.next) : Gains owning (owning.freeKeys array) array 0 1 := by
  obtain ⟨next, released⟩ := freeGroupKeys_spec issued
  exact ⟨next, fun _ => (ite_self 0).symm ▸ rfl, released, fun _ member => .inl ⟨member, rfl⟩, rfl⟩

/-- A new bucket refers to the array it is given. -/
theorem gains_create (fresh : ∀ bucket ∈ owning.state.buckets,
    bucket.addr < owning.state.nextAddr) (keys : Option (List String)) (array : Option Nat)
    (ws we : Nat) :
    Gains owning (owning.createBucketWithWindow keys array ws we).1 array 1 0 := by
  have old : ∀ bucket ∈ owning.state.buckets,
      (owning.createBucketWithWindow keys array ws we).1.keysAt bucket.addr =
        owning.keysAt bucket.addr := by
    intro bucket member
    exact Function.update_of_ne (Nat.ne_of_lt (fresh bucket member)) _ _
  have new : (owning.createBucketWithWindow keys array ws we).1.keysAt owning.state.nextAddr =
      array := Function.update_self _ _ _
  refine ⟨rfl, fun handle => ?_, fun _ => (ite_self 0).symm ▸ rfl, fun bucket member => ?_, rfl⟩
  · have same : (owning.state.buckets.map Bucket.addr).countP (fun addr =>
        decide ((owning.createBucketWithWindow keys array ws we).1.keysAt addr = some handle)) =
          owning.references handle := by
      refine List.countP_congr fun addr member => ?_
      obtain ⟨bucket, inside, rfl⟩ := List.mem_map.mp member
      rw [old bucket inside]
    show ((owning.state.nextAddr :: owning.state.buckets.map Bucket.addr).countP fun addr =>
      decide ((owning.createBucketWithWindow keys array ws we).1.keysAt addr = some handle)) = _
    rw [List.countP_cons, same, new]
    simp
  · rcases List.mem_cons.mp member with rfl | member
    · exact .inr new
    · exact .inl ⟨member, old bucket member⟩

theorem gains_findOrCreate (fresh : ∀ bucket ∈ owning.state.buckets,
    bucket.addr < owning.state.nextAddr) {array : Option Nat}
    (issued : ∀ handle, array = some handle → handle < owning.arrays.next)
    (found : Option Bucket) (keys : Option (List String)) (ws we : Nat) :
    ∃ references releases, references + releases = 1 ∧
      Gains owning (owning.findOrCreate found keys array ws we).1 array references releases := by
  cases found with
  | some bucket => exact ⟨0, 1, rfl, gains_freeKeys issued⟩
  | none => exact ⟨1, 0, rfl, gains_create fresh keys array ws we⟩

/-! ## The sliding loop -/

/-- The windows of an event, as the loop visits them, that have no bucket of its group. -/
def missingWindows (state : AggState) (keys : Option (List String)) (starts : List Nat) :
    Finset Nat :=
  (starts.filter fun start => (findBucketByWindow state keys start).isNone).toFinset

theorem findBucketByWindow_create {state : AggState} {keys : Option (List String)}
    {start : Nat} (ws we : Nat) (other : start ≠ ws) :
    findBucketByWindow (Nblex.createBucketWithWindow state keys ws we).1 keys start =
      findBucketByWindow state keys start := by
  refine List.find?_cons_of_neg (p := fun bucket : Bucket =>
    compareGroupKeys bucket.groupKeys keys (groupKeysCount keys) &&
      bucket.windowStartNs == start) ?_
  simp [newBucket, Ne.symm other]

theorem findBucketByWindow_create_self (state : AggState) (keys : Option (List String))
    (ws we : Nat) :
    (findBucketByWindow (Nblex.createBucketWithWindow state keys ws we).1 keys ws).isSome := by
  have found : findBucketByWindow (Nblex.createBucketWithWindow state keys ws we).1 keys ws =
      some (newBucket state.nextAddr keys ws we) := by
    refine List.find?_cons_of_pos (p := fun bucket : Bucket =>
      compareGroupKeys bucket.groupKeys keys (groupKeysCount keys) &&
        bucket.windowStartNs == ws) ?_
    simp [newBucket, compareGroupKeys_self]
  rw [found]
  rfl

/-- Creating a bucket for a window leaves the other windows missing. -/
theorem missingWindows_create (state : AggState) (keys : Option (List String)) (ws we : Nat)
    (starts : List Nat) :
    missingWindows (Nblex.createBucketWithWindow state keys ws we).1 keys starts =
      (missingWindows state keys starts).erase ws := by
  ext start
  simp only [missingWindows, Finset.mem_erase, List.mem_toFinset, List.mem_filter]
  by_cases same : start = ws
  · subst same
    have found := findBucketByWindow_create_self state keys start we
    simp [Option.isNone_iff_eq_none, Option.isSome_iff_ne_none.mp found]
  · rw [findBucketByWindow_create ws we same]
    simp [same]

theorem missingWindows_cons_some {state : AggState} {keys : Option (List String)} {start : Nat}
    {bucket : Bucket} (search : findBucketByWindow state keys start = some bucket)
    (starts : List Nat) :
    missingWindows state keys (start :: starts) = missingWindows state keys starts := by
  simp [missingWindows, search]

/-- A missing window is counted once, however often the loop visits it: it has a bucket after its
    first visit. -/
theorem missingWindows_cons_none {state : AggState} {keys : Option (List String)} {start : Nat}
    (search : findBucketByWindow state keys start = none) (we : Nat) (starts : List Nat) :
    (missingWindows state keys (start :: starts)).card =
      1 + (missingWindows (Nblex.createBucketWithWindow state keys start we).1 keys
        starts).card := by
  have missing : missingWindows state keys (start :: starts) =
      insert start (missingWindows state keys starts) := by
    simp [missingWindows, search]
  have counted := Finset.card_erase_add_one
    (Finset.mem_insert_self start (missingWindows state keys starts))
  rw [Finset.erase_insert_eq_erase] at counted
  rw [missing, missingWindows_create, Nat.add_comm, counted]

theorem slidingStarts_length_le (timestamp windowSize slide : Nat) :
    ∀ fuel current, (slidingStarts timestamp windowSize slide fuel current).length ≤ fuel := by
  intro fuel
  induction fuel with
  | zero =>
      intro current
      exact Nat.le_refl 0
  | succ fuel ih =>
      intro current
      rw [slidingStarts]
      split
      · exact Nat.succ_le_succ (ih _)
      · exact Nat.zero_le _

/-- The loop gives the keys to one new bucket for each missing window. -/
theorem slidingLoop_gains (keys : Option (List String)) (array : Option Nat)
    (timestamp windowSize slide : Nat) :
    ∀ (fuel : Nat) {owning : KeyState} (owned : Bool) (current : Nat),
      (∀ bucket ∈ owning.state.buckets, bucket.addr < owning.state.nextAddr) →
      Gains owning (slidingLoop keys array timestamp windowSize slide fuel owning owned current).1
          array (missingWindows owning.state keys
            (slidingStarts timestamp windowSize slide fuel current)).card 0 ∧
        (slidingLoop keys array timestamp windowSize slide fuel owning owned current).2.1 =
          (owned || decide (0 < (missingWindows owning.state keys
            (slidingStarts timestamp windowSize slide fuel current)).card)) := by
  intro fuel
  induction fuel with
  | zero =>
      intro owning owned current fresh
      exact ⟨gains_refl owning array, (Bool.or_false owned).symm⟩
  | succ fuel ih =>
      intro owning owned current fresh
      rw [slidingLoop, slidingStarts]
      by_cases inside : current ≤ timestamp ∧ timestamp < u64Add current windowSize
      · rw [if_pos inside, if_pos inside]
        cases search : findBucketByWindow owning.state keys current with
        | some bucket =>
            rw [missingWindows_cons_some search]
            exact ih owned (u64Add current slide) fresh
        | none =>
            have fresh' : ∀ bucket ∈ (owning.createBucketWithWindow keys array current
                (u64Add current windowSize)).1.state.buckets, bucket.addr <
                  (owning.createBucketWithWindow keys array current
                    (u64Add current windowSize)).1.state.nextAddr := by
              intro bucket member
              rcases List.mem_cons.mp member with rfl | old
              · exact Nat.lt_succ_self _
              · exact Nat.lt_succ_of_lt (fresh bucket old)
            obtain ⟨gains, flag⟩ := ih true (u64Add current slide) fresh'
            rw [missingWindows_cons_none search (u64Add current windowSize)]
            refine ⟨(gains_create fresh keys array _ _).trans gains, flag.trans ?_⟩
            rw [decide_eq_true (Nat.add_pos_left Nat.one_pos _), Bool.or_true, Bool.true_or]
      · rw [if_neg inside, if_neg inside]
        exact ⟨gains_refl owning array, (Bool.or_false owned).symm⟩

/-! ## An event -/

/-- The windows an event finds without a bucket of its group, among those its timestamp has the
    loop visit. -/
def openedWindows (state : AggState) (keys : Option (List String)) (timestamp : Nat) :
    Finset Nat :=
  missingWindows state keys (slidingStarts timestamp (windowSizeNs state.window)
    (slideNs state.window) (maxWindows timestamp (windowSizeNs state.window) (slideNs state.window))
    (earliestWindowStart timestamp (windowSizeNs state.window) (slideNs state.window)))

/-- How many owners the keys of an event get, and how often they are freed, taken together. -/
def owners (state : AggState) (keys : Option (List String)) (timestamp : Nat) : Nat :=
  if state.window.type = .sliding then max 1 (openedWindows state keys timestamp).card else 1

theorem slidingBuckets_gains (fresh : ∀ bucket ∈ owning.state.buckets,
    bucket.addr < owning.state.nextAddr) {array : Option Nat}
    (issued : ∀ handle, array = some handle → handle < owning.arrays.next)
    {keys : Option (List String)} {timestamp : Nat} {after : KeyState} {buckets : List Bucket}
    (got : owning.slidingBuckets keys array timestamp = some (after, buckets)) :
    ∃ references releases, references + releases =
        max 1 (openedWindows owning.state keys timestamp).card ∧
      Gains owning after array references releases := by
  rw [slidingBuckets] at got
  dsimp only at got
  obtain ⟨looped, flag⟩ := slidingLoop_gains keys array timestamp (windowSizeNs owning.state.window)
    (slideNs owning.state.window)
    (maxWindows timestamp (windowSizeNs owning.state.window) (slideNs owning.state.window)) false
    (earliestWindowStart timestamp (windowSizeNs owning.state.window) (slideNs owning.state.window))
    fresh
  change Gains owning _ array (openedWindows owning.state keys timestamp).card 0 at looped
  change _ = (false || decide (0 < (openedWindows owning.state keys timestamp).card)) at flag
  by_cases divides : slideNs owning.state.window = 0
  · rw [if_pos divides] at got
    cases got
  · rw [if_neg divides, flag, Bool.false_or] at got
    obtain ⟨rfl, -⟩ := Prod.mk.inj (Option.some.inj got)
    by_cases opened : 0 < (openedWindows owning.state keys timestamp).card
    · rw [if_pos (decide_eq_true opened)]
      refine ⟨_, 0, ?_, looped⟩
      rw [Nat.add_zero, max_eq_right opened]
    · rw [if_neg (fun decided => opened (of_decide_eq_true decided))]
      have none := Nat.eq_zero_of_not_pos opened
      rw [none] at looped ⊢
      have later := gains_freeKeys (fun handle same => looped.next ▸ issued handle same)
      exact ⟨0, 1, rfl, looped.trans later⟩

/-- The keys of an event are freed, or given to a bucket for each window it opens. -/
theorem getOrCreate_gains (fresh : ∀ bucket ∈ owning.state.buckets,
    bucket.addr < owning.state.nextAddr) {array : Option Nat}
    (issued : ∀ handle, array = some handle → handle < owning.arrays.next)
    {keys : Option (List String)} {timestamp : Nat} {after : KeyState} {buckets : List Bucket}
    (got : owning.getOrCreateBucketsForEvent keys array timestamp = some (after, buckets)) :
    ∃ references releases, references + releases = owners owning.state keys timestamp ∧
      Gains owning after array references releases := by
  rw [getOrCreateBucketsForEvent] at got
  cases type : owning.state.window.type with
  | none =>
      rw [type] at got
      obtain ⟨rfl, -⟩ := Prod.mk.inj (Option.some.inj got)
      rw [owners, type, if_neg nofun]
      exact gains_findOrCreate fresh issued _ keys _ _
  | session =>
      rw [type] at got
      obtain ⟨rfl, -⟩ := Prod.mk.inj (Option.some.inj got)
      rw [owners, type, if_neg nofun]
      exact gains_findOrCreate fresh issued _ keys _ _
  | tumbling =>
      rw [type] at got
      obtain ⟨index, -, same⟩ := Option.map_eq_some_iff.mp got
      obtain ⟨rfl, -⟩ := Prod.mk.inj same
      rw [owners, type, if_neg nofun]
      exact gains_findOrCreate fresh issued _ keys _ _
  | sliding =>
      rw [type] at got
      rw [owners, if_pos type]
      exact slidingBuckets_gains fresh issued got

/-! ## The executor without the handles -/

theorem slidingLoop_forget (keys : Option (List String)) (array : Option Nat)
    (timestamp windowSize slide : Nat) :
    ∀ (fuel : Nat) (owning : KeyState) (owned : Bool) (current : Nat),
      ((slidingLoop keys array timestamp windowSize slide fuel owning owned current).1.state,
        (slidingLoop keys array timestamp windowSize slide fuel owning owned current).2.2) =
        Nblex.slidingLoop keys timestamp windowSize slide fuel owning.state current := by
  intro fuel
  induction fuel with
  | zero =>
      intro owning owned current
      rfl
  | succ fuel ih =>
      intro owning owned current
      rw [slidingLoop, Nblex.slidingLoop]
      by_cases inside : current ≤ timestamp ∧ timestamp < u64Add current windowSize
      · rw [if_pos inside, if_pos inside, windowBucket]
        cases findBucketByWindow owning.state keys current with
        | some bucket => simp only [Nblex.findOrCreate, ← ih owning owned (u64Add current slide)]
        | none =>
            have rest := ih (owning.createBucketWithWindow keys array current
              (u64Add current windowSize)).1 true (u64Add current slide)
            change _ = Nblex.slidingLoop keys timestamp windowSize slide fuel
              (Nblex.createBucketWithWindow owning.state keys current
                (u64Add current windowSize)).1 (u64Add current slide) at rest
            simp only [Nblex.findOrCreate, ← rest]
            rfl
      · rw [if_neg inside, if_neg inside]

theorem findOrCreate_forget (found : Option Bucket) (keys : Option (List String))
    (array : Option Nat) (ws we : Nat) :
    ((owning.findOrCreate found keys array ws we).1.state,
      (owning.findOrCreate found keys array ws we).2) =
      singleBucket (Nblex.findOrCreate owning.state found keys ws we) := by
  cases found <;> rfl

/-- Without the handles the buckets are found and created as before. -/
theorem getOrCreate_forget (keys : Option (List String)) (array : Option Nat) (timestamp : Nat) :
    (owning.getOrCreateBucketsForEvent keys array timestamp).map (fun got => (got.1.state, got.2)) =
      Nblex.getOrCreateBucketsForEvent owning.state keys timestamp := by
  rw [getOrCreateBucketsForEvent, Nblex.getOrCreateBucketsForEvent]
  cases owning.state.window.type with
  | none => exact congrArg some (findOrCreate_forget _ keys array _ _)
  | session => exact congrArg some (findOrCreate_forget _ keys array _ _)
  | tumbling =>
      simp only [tumblingBuckets, Option.map_map]
      refine congrArg (fun f => Option.map f _) (funext fun index => ?_)
      exact findOrCreate_forget _ keys array _ _
  | sliding =>
      rw [slidingBuckets, Nblex.slidingBuckets]
      by_cases divides : slideNs owning.state.window = 0
      · rw [if_pos divides, if_pos divides]
        rfl
      · rw [if_neg divides, if_neg divides, ← slidingLoop_forget keys array timestamp _ _ _ owning
          false]
        generalize slidingLoop keys array timestamp _ _ _ owning false _ = looped
        obtain ⟨found, owned, buckets⟩ := looped
        cases owned <;> rfl

theorem aggregateEvent_forget (event : Event) (now now' : Nat) :
    (owning.aggregateEvent event now now').map state =
      (Nblex.aggregateEvent owning.state event now now').map Prod.fst := by
  have kept : ∀ keys, (owning.allocKeys keys).1.state = owning.state := by
    intro keys
    cases keys <;> rfl
  rw [aggregateEvent, Nblex.aggregateEvent]
  dsimp only
  rw [← kept (extractGroupKeys owning.state.groupByFields event), ← getOrCreate_forget, kept]
  cases getOrCreateBucketsForEvent _ _ _ _ with
  | none => rfl
  | some got => rfl

/-! ## A step -/

/-- From `before` to `after` the owners and releases of an array come to the same, and the array
    allocated on the way, if there is one, has so many. -/
structure Accounts (before after : KeyState) (new : Option Nat) : Prop where
  next : after.arrays.next = before.arrays.next + if new.isSome then 1 else 0
  old : ∀ handle < before.arrays.next, after.total handle = before.total handle
  allocated : ∀ count, new = some count → after.total before.arrays.next = count

theorem accounts_refl (owning : KeyState) : Accounts owning owning none :=
  ⟨rfl, fun _ _ => rfl, nofun⟩

theorem accounts_ended (owning : KeyState) :
    Accounts owning { owning with running := false } none :=
  ⟨rfl, fun _ _ => rfl, nofun⟩

/-- The keys of every array are accounted for once after a step just in case they were before it and
    the step gives a new array one owner. -/
theorem Accounts.totals_iff {before after : KeyState} {new : Option Nat}
    (accounts : Accounts before after new) :
    (∀ handle < after.arrays.next, after.total handle = 1) ↔
      (∀ handle < before.arrays.next, before.total handle = 1) ∧
        ∀ count, new = some count → count = 1 := by
  constructor
  · intro totals
    refine ⟨fun handle issued => ?_, fun count same => ?_⟩
    · rw [← accounts.old handle issued]
      exact totals handle (accounts.next ▸ Nat.lt_add_right _ issued)
    · rw [← accounts.allocated count same]
      exact totals _ (by simp [accounts.next, same])
  · rintro ⟨olds, one⟩ handle issued
    rw [accounts.next] at issued
    rcases Nat.lt_or_ge handle before.arrays.next with known | fresh
    · rw [accounts.old handle known]
      exact olds handle known
    · cases new with
      | none => exact absurd issued (Nat.not_lt.mpr fresh)
      | some count =>
          obtain rfl : handle = before.arrays.next :=
            Nat.le_antisymm (Nat.lt_succ_iff.mp issued) fresh
          rw [accounts.allocated count rfl]
          exact one count rfl

/-- Updating the buckets changes no account. -/
theorem Accounts.of_addrs {before found after : KeyState} {new : Option Nat}
    (accounts : Accounts before found new)
    (addrs : after.state.buckets.map Bucket.addr = found.state.buckets.map Bucket.addr)
    (keysAt : after.keysAt = found.keysAt) (arrays : after.arrays = found.arrays) :
    Accounts before after new := by
  have same : after.total = found.total := by
    funext handle
    rw [total, total, references, references, addrs, keysAt, arrays]
  exact ⟨arrays ▸ accounts.next, same ▸ accounts.old, same ▸ accounts.allocated⟩

/-- What an accepted event allocates: nothing without group keys. -/
def eventOwners (owning : KeyState) (event : Event) (now : Nat) : Option Nat :=
  (extractGroupKeys owning.state.groupByFields event).map fun keys =>
    owners owning.state (some keys) (eventTimestamp event now)

theorem Gains.total {before after : KeyState} {array : Option Nat} {references releases : Nat}
    (gains : Gains before after array references releases) (handle : Nat) :
    after.total handle =
      before.total handle + if array = some handle then references + releases else 0 := by
  rw [KeyState.total, KeyState.total, gains.references, gains.released]
  split <;> omega

/-- The updates of the buckets, after they have been found or created. -/
theorem map_addr_updates (event : Event) (now : Nat) (buckets : List Bucket) (state : AggState) :
    (buckets.foldl (fun state bucket => state.updateAt bucket.addr
        (fun bucket => updateBucketWithEvent state.window state.funcs bucket event now))
        state).buckets.map Bucket.addr = state.buckets.map Bucket.addr := by
  induction buckets generalizing state with
  | nil => rfl
  | cons bucket buckets ih =>
      rw [List.foldl_cons, ih]
      exact map_addr_updateAt bucket.addr fun bucket => updateBucketWithEvent_addr _ _ bucket _ _

theorem allocKeys_state (keys : Option (List String)) :
    (owning.allocKeys keys).1.state = owning.state := by
  cases keys <;> rfl

theorem allocKeys_array {keys : Option (List String)} {handle : Nat}
    (here : (owning.allocKeys keys).2 = some handle) :
    handle = owning.arrays.next ∧ (owning.allocKeys keys).1.arrays.next = handle + 1 := by
  cases keys with
  | none => cases here
  | some keys =>
      obtain rfl := Option.some.inj here
      exact ⟨rfl, rfl⟩

/-- A new array has no owner yet and has not been freed. -/
theorem allocKeys_accounts (sound : owning.Sound query) (keys : Option (List String)) :
    Accounts owning (owning.allocKeys keys).1 (keys.map fun _ => 0) := by
  cases keys with
  | none => exact accounts_refl owning
  | some keys =>
      refine ⟨rfl, fun _ _ => rfl, fun count same => ?_⟩
      obtain rfl := Option.some.inj same
      have unreferenced := references_eq_zero sound (Nat.le_refl owning.arrays.next)
      have unreleased := Ledger.released_of_le (Nat.le_refl owning.arrays.next)
      exact Nat.add_eq_zero_iff.mpr ⟨unreferenced, unreleased⟩

/-- The buckets of an event refer to arrays that were known or to the new one. -/
theorem Gains.issued {found : KeyState} {keys : Option (List String)} {references releases : Nat}
    (sound : owning.Sound query) (gains : Gains (owning.allocKeys keys).1 found
      (owning.allocKeys keys).2 references releases) :
    ∀ bucket ∈ found.state.buckets, ∀ handle, found.keysAt bucket.addr = some handle →
      handle < found.arrays.next := by
  intro bucket member handle refers
  rw [gains.next, (allocKeys_accounts sound keys).next]
  rcases gains.known bucket member with ⟨old, kept⟩ | new
  · have same : (owning.allocKeys keys).1.keysAt = owning.keysAt := by
      cases keys <;> rfl
    rw [allocKeys_state] at old
    rw [same] at kept
    exact Nat.lt_add_right _ (sound.known bucket old handle (kept ▸ refers))
  · obtain ⟨rfl, after⟩ := allocKeys_array (new.symm.trans refers)
    rw [← (allocKeys_accounts sound keys).next, after]
    exact Nat.lt_succ_self _

theorem Gains.accounts {found : KeyState} {keys : Option (List String)} {references releases : Nat}
    (sound : owning.Sound query) (gains : Gains (owning.allocKeys keys).1 found
      (owning.allocKeys keys).2 references releases) :
    Accounts owning found (keys.map fun _ => references + releases) := by
  have allocated := allocKeys_accounts sound keys
  refine ⟨gains.next.trans ?_, fun handle known => ?_, fun count same => ?_⟩
  · rw [allocated.next]
    simp
  · rw [gains.total, allocated.old handle known, if_neg, Nat.add_zero]
    intro here
    exact Nat.ne_of_lt known (allocKeys_array here).1
  · cases keys with
    | none => cases same
    | some keys =>
        rw [gains.total, allocated.allocated 0 rfl, Nat.zero_add]
        exact (if_pos rfl).trans (Option.some.inj same)

/-- The new array of an event has as many owners and releases as the event opens windows, or one. -/
theorem aggregateEvent_steps (sound : owning.Sound query) {event : Event} {now now' : Nat}
    {after : KeyState} (ran : owning.aggregateEvent event now now' = some after) :
    after.Sound query ∧ after.running = owning.running ∧
      Accounts owning after (owning.eventOwners event now) := by
  have forgotten := @aggregateEvent_forget owning event now now'
  rw [ran] at forgotten
  obtain ⟨result, aggregated, same⟩ := Option.map_eq_some_iff.mp forgotten.symm
  have wellFormed : after.state.WellFormed query :=
    same ▸ sound.wellFormed.aggregateEvent aggregated
  rw [aggregateEvent] at ran
  rw [eventOwners]
  generalize extractGroupKeys owning.state.groupByFields event = keys at ran
  cases got : (owning.allocKeys keys).1.getOrCreateBucketsForEvent keys (owning.allocKeys keys).2
      (eventTimestamp event now) with
  | none =>
      rw [got] at ran
      cases ran
  | some result =>
      rw [got] at ran
      have fresh := sound.wellFormed.fresh
      rw [← allocKeys_state keys] at fresh
      obtain ⟨m, n, handed, gains⟩ := getOrCreate_gains fresh
        (fun handle here => (allocKeys_array here).2 ▸ Nat.lt_succ_self handle) got
      have addrs : after.state.buckets.map Bucket.addr =
          result.1.state.buckets.map Bucket.addr := by
        rw [← Option.some.inj ran]
        exact map_addr_updates event now' result.2 result.1.state
      have keysAt : after.keysAt = result.1.keysAt := by rw [← Option.some.inj ran]
      have arrays : after.arrays = result.1.arrays := by rw [← Option.some.inj ran]
      have running : after.running = result.1.running := by rw [← Option.some.inj ran]
      have owned : keys.map (fun _ => m + n) =
          keys.map fun keys => owners owning.state (some keys) (eventTimestamp event now) := by
        rw [allocKeys_state] at handed
        cases keys with
        | none => rfl
        | some keys => exact congrArg some handed
      refine ⟨⟨wellFormed, fun bucket member => ?_⟩, ?_,
        owned ▸ (gains.accounts sound).of_addrs addrs keysAt arrays⟩
      · have kept := List.mem_map_of_mem (f := Bucket.addr) member
        rw [addrs] at kept
        obtain ⟨found, inside, here⟩ := List.mem_map.mp kept
        rw [keysAt, arrays, ← here]
        exact gains.issued sound found inside
      · rw [running, gains.running]
        cases keys <;> rfl

/-! ## A tick -/

theorem flushKeys_cons {window : Window} {now : Nat} {bucket : Bucket} {step : FlushStep}
    (stepped : flushBucket window now bucket = some step) (keysAt : Nat → Option Nat)
    (arrays : Ledger) (rest : List Bucket) :
    flushKeys window now keysAt arrays (bucket :: rest) =
      flushKeys window now keysAt
        (if step.shouldRemove then freeGroupKeys arrays (keysAt bucket.addr) else arrays) rest := by
  rw [flushKeys, stepped]

/-- What a flush frees of an array is what it removes of its owners. -/
theorem flushKeys_spec {window : Window} {now : Nat} {keysAt : Nat → Option Nat} :
    ∀ {buckets kept emitted : List Bucket} {arrays : Ledger},
      flushLoop window now buckets = some (kept, emitted) →
      (∀ bucket ∈ buckets, ∀ handle, keysAt bucket.addr = some handle → handle < arrays.next) →
      (flushKeys window now keysAt arrays buckets).next = arrays.next ∧
        ∀ handle, ((kept.map Bucket.addr).countP fun addr => decide (keysAt addr = some handle)) +
            (flushKeys window now keysAt arrays buckets).released handle =
          ((buckets.map Bucket.addr).countP fun addr => decide (keysAt addr = some handle)) +
            arrays.released handle := by
  intro buckets
  induction buckets with
  | nil =>
      intro kept emitted arrays flushed known
      obtain ⟨rfl, -⟩ := Prod.mk.inj (Option.some.inj flushed)
      exact ⟨rfl, fun _ => rfl⟩
  | cons bucket buckets ih =>
      intro kept emitted arrays flushed known
      rw [flushLoop] at flushed
      cases stepped : flushBucket window now bucket with
      | none =>
          rw [stepped] at flushed
          cases flushed
      | some step =>
          cases rest : flushLoop window now buckets with
          | none =>
              rw [stepped, rest] at flushed
              cases flushed
          | some result =>
              rw [stepped, rest] at flushed
              obtain ⟨rfl, -⟩ := Prod.mk.inj (Option.some.inj flushed)
              have known' := List.forall_mem_cons.mp known
              have addr := (flushBucket_keeps stepped).1
              rw [flushKeys_cons stepped]
              cases removed : step.shouldRemove with
              | true =>
                  obtain ⟨next, freed⟩ := freeGroupKeys_spec known'.1
                  obtain ⟨next', totals⟩ := ih rest (next.symm ▸ known'.2)
                  refine ⟨next'.trans next, fun handle => ?_⟩
                  have total := totals handle
                  have here := freed handle
                  simp only [if_true, List.nil_append, List.map_cons, List.countP_cons,
                    decide_eq_true_eq]
                  omega
              | false =>
                  obtain ⟨next, totals⟩ := ih rest known'.2
                  refine ⟨next, fun handle => ?_⟩
                  have total := totals handle
                  simp only [Bool.false_eq_true, if_false, List.singleton_append, List.map_cons,
                    List.countP_cons, addr]
                  omega

theorem windowFlushCb_steps (sound : owning.Sound query) {now : Nat} {after : KeyState}
    (ran : owning.windowFlushCb now = some after) :
    after.Sound query ∧ after.running = owning.running ∧ Accounts owning after none := by
  obtain ⟨⟨state, emitted⟩, flushed, rfl⟩ := Option.map_eq_some_iff.mp ran
  have wellFormed := sound.wellFormed.flush flushed
  rw [Nblex.windowFlushCb] at flushed
  cases looped : flushLoop owning.state.window now owning.state.buckets with
  | none =>
      rw [looped] at flushed
      cases flushed
  | some result =>
      rw [looped] at flushed
      obtain ⟨rfl, -⟩ := Prod.mk.inj (Option.some.inj flushed)
      obtain ⟨next, totals⟩ := flushKeys_spec looped sound.known
      refine ⟨⟨wellFormed, fun bucket member => ?_⟩, rfl, next, fun handle _ => totals handle, ?_⟩
      · have kept := (flushLoop_kept looped).1.mem (List.mem_map_of_mem (f := Bucket.addr) member)
        obtain ⟨old, inside, here⟩ := List.mem_map.mp kept
        rw [next, ← here]
        exact sound.known old inside
      · intro event accounted
        cases accounted

/-! ## Runs -/

section Runs

variable [Pcre2]

/-- An event that the process takes in finds at most one of its sliding windows without a bucket of
    its group. -/
def OpensOne (query : Aggregate) (owning : KeyState) : AggOp → Prop
  | .tick _ => True
  | .event event now _ =>
      owning.running → whereAccepts query event → query.window.type = .sliding →
        ∀ keys, extractGroupKeys query.groupByFields event = some keys →
          (openedWindows owning.state (some keys) (eventTimestamp event now)).card ≤ 1

variable (query : Aggregate)

omit [Pcre2] in
theorem eventOwners_iff (wf : owning.state.WellFormed query) (event : Event) (now : Nat) :
    (∀ count, owning.eventOwners event now = some count → count = 1) ↔
      (query.window.type = .sliding →
        ∀ keys, extractGroupKeys query.groupByFields event = some keys →
          (openedWindows owning.state (some keys) (eventTimestamp event now)).card ≤ 1) := by
  have split : ∀ count, owning.eventOwners event now = some count ↔
      ∃ keys, extractGroupKeys query.groupByFields event = some keys ∧
        owners owning.state (some keys) (eventTimestamp event now) = count := by
    intro count
    rw [eventOwners, wf.groupByFields, Option.map_eq_some_iff]
  constructor
  · intro one sliding keys extracted
    have count := one _ ((split _).mpr ⟨keys, extracted, rfl⟩)
    rw [owners, wf.window, if_pos sliding] at count
    exact (Nat.le_max_right _ _).trans (Nat.le_of_eq count)
  · intro few count same
    obtain ⟨keys, extracted, rfl⟩ := (split count).mp same
    rw [owners, wf.window]
    by_cases sliding : query.window.type = .sliding
    · rw [if_pos sliding]
      exact Nat.max_eq_left (few sliding keys extracted)
    · rw [if_neg sliding]

omit [Pcre2] in
/-- A slide of zero has the loop visit one window at most. -/
theorem openedWindows_of_slide_zero {state : AggState} (zero : slideNs state.window = 0)
    (keys : Option (List String)) (timestamp : Nat) :
    (openedWindows state keys timestamp).card ≤ 1 := by
  rw [openedWindows, missingWindows]
  refine (List.toFinset_card_le _).trans ((List.length_filter_le _ _).trans ?_)
  refine (slidingStarts_length_le _ _ _ _ _).trans ?_
  rw [zero, maxWindows, Nat.div_zero]
  exact Nat.min_le_left _ _

omit [Pcre2] in
/-- A sliding query divides by zero only with a slide of zero. -/
theorem slideNs_of_aggregateEvent (sliding : owning.state.window.type = .sliding) {event : Event}
    {now now' : Nat} (ran : owning.aggregateEvent event now now' = none) :
    slideNs owning.state.window = 0 := by
  rw [aggregateEvent] at ran
  generalize extractGroupKeys owning.state.groupByFields event = keys at ran
  by_contra divides
  rw [← allocKeys_state keys] at sliding divides
  simp only [getOrCreateBucketsForEvent, sliding, slidingBuckets, if_neg divides] at ran
  cases ran

/-- A step keeps every account, and gives a new array one owner just in case the event opens at most
    one window. -/
theorem keyStep_spec (sound : owning.Sound query) (op : AggOp) :
    ∃ new, (keyStep query owning op).Sound query ∧ Accounts owning (keyStep query owning op) new ∧
      ((∀ count, new = some count → count = 1) ↔ OpensOne query owning op) := by
  rw [keyStep]
  by_cases running : owning.running = true
  · rw [if_pos running]
    cases op with
    | tick now =>
        rw [run]
        cases ran : owning.windowFlushCb now with
        | none =>
            exact ⟨none, ⟨sound.wellFormed, sound.known⟩, accounts_ended owning,
              ⟨fun _ => trivial, fun _ => nofun⟩⟩
        | some after =>
            obtain ⟨kept, -, accounts⟩ := windowFlushCb_steps sound ran
            exact ⟨none, kept, accounts, ⟨fun _ => trivial, fun _ => nofun⟩⟩
    | event event now now' =>
        rw [run]
        by_cases accepts : whereAccepts query event = true
        · rw [if_pos accepts]
          cases ran : owning.aggregateEvent event now now' with
          | none =>
              refine ⟨none, ⟨sound.wellFormed, sound.known⟩, accounts_ended owning, fun _ => ?_,
                fun _ => nofun⟩
              intro _ _ sliding keys _
              rw [← sound.wellFormed.window] at sliding
              exact openedWindows_of_slide_zero (slideNs_of_aggregateEvent sliding ran) _ _
          | some after =>
              obtain ⟨kept, -, accounts⟩ := aggregateEvent_steps sound ran
              refine ⟨_, kept, accounts,
                (eventOwners_iff query sound.wellFormed event now).trans ?_⟩
              exact ⟨fun few _ _ => few, fun opens => opens running accepts⟩
        · rw [if_neg accepts]
          refine ⟨none, sound, accounts_refl owning, fun _ => ?_, fun _ => nofun⟩
          exact fun _ accepted => absurd accepted accepts
  · rw [if_neg running]
    refine ⟨none, sound, accounts_refl owning, fun _ => ?_, fun _ => nofun⟩
    cases op with
    | tick now => trivial
    | event event now now' => exact fun runs => absurd runs running

omit [Pcre2] in
theorem newKeyState_sound : (newKeyState query).Sound query :=
  ⟨newAggState_wellFormed query, nofun⟩

omit [Pcre2] in
theorem newKeyState_keysOwned : (newKeyState query).KeysOwned :=
  (keysOwned_iff (newKeyState_sound query)).mpr
    fun handle issued => absurd issued (Nat.not_lt_zero handle)

/-- The keys are owned after a step just in case they were before it and its event opens at most one
    window. -/
theorem keyStep_keysOwned_iff (sound : owning.Sound query) (op : AggOp) :
    (keyStep query owning op).KeysOwned ↔ owning.KeysOwned ∧ OpensOne query owning op := by
  obtain ⟨new, kept, accounts, one⟩ := keyStep_spec query sound op
  rw [keysOwned_iff kept, keysOwned_iff sound, accounts.totals_iff, one]

theorem keyStep_sound (sound : owning.Sound query) (op : AggOp) :
    (keyStep query owning op).Sound query := by
  obtain ⟨-, kept, -⟩ := keyStep_spec query sound op
  exact kept

end Runs

end KeyState

/-- The group-key arrays of a query are owned after a run just in case no event of it opens two
    sliding windows at once. -/
theorem keysOwned_run_iff [Pcre2] (query : Aggregate) (ops : List AggOp) :
    (ops.foldl (keyStep query) (newKeyState query)).KeysOwned ↔
      Guarded.Meets (keyStep query) (KeyState.OpensOne query) (newKeyState query) ops := by
  have sound := KeyState.newKeyState_sound query
  have owned := KeyState.newKeyState_keysOwned query
  apply Guarded.foldl_claimed_iff (fun owning => owning.Sound query ∧ owning.KeysOwned)
    (fun owning => owning.Sound query ∧ ¬owning.KeysOwned)
  · rintro owning op ⟨sound, owned⟩ opens
    exact ⟨KeyState.keyStep_sound query sound op,
      (KeyState.keyStep_keysOwned_iff query sound op).mpr ⟨owned, opens⟩⟩
  · rintro owning op ⟨sound, -⟩ shared
    exact ⟨KeyState.keyStep_sound query sound op,
      fun after => shared ((KeyState.keyStep_keysOwned_iff query sound op).mp after).2⟩
  · rintro owning op ⟨sound, shared⟩
    exact ⟨KeyState.keyStep_sound query sound op,
      fun after => shared ((KeyState.keyStep_keysOwned_iff query sound op).mp after).1⟩
  · exact fun _ inv => inv.2
  · exact fun _ lost => lost.2
  · exact ⟨sound, owned⟩

/-- Counts for each level, over windows of two milliseconds that start each millisecond. -/
def slidingLevelQuery : Aggregate where
  funcs := [{ type := .count }]
  groupByFields := ["level"]
  whereFilter := none
  window := { type := .sliding, sizeMs := 2, slideMs := 1 }

/-- An event in two windows, and the ticks at which they are over. -/
def slidingLevelOps : List AggOp :=
  [.event (levelEvent "error" 1500000) 0 0, .tick 2000000, .tick 3000000]

/-- The two buckets share their keys. The first flush frees them under the bucket that stays, and
    the second frees them again. -/
theorem slidingLevelQuery_freesTwice :
    @nqlParse literalPcre2 "aggregate count() by level window sliding(2ms,1ms)".toList =
        some (.single (.aggregate slidingLevelQuery)) ∧
      ¬((slidingLevelOps.take 1).foldl (@keyStep literalPcre2 slidingLevelQuery)
        (newKeyState slidingLevelQuery)).KeysOwned ∧
      (slidingLevelOps.inits.map fun ops =>
        let owning := ops.foldl (@keyStep literalPcre2 slidingLevelQuery)
          (newKeyState slidingLevelQuery)
        (owning.references 0, owning.arrays.released 0)) = [(0, 0), (2, 0), (1, 1), (0, 2)] := by
  have shared : 1 < ((slidingLevelOps.take 1).foldl (@keyStep literalPcre2 slidingLevelQuery)
      (newKeyState slidingLevelQuery)).references 0 := by decide
  exact ⟨by decide, fun owned => Nat.not_lt.mpr (owned.single 0) shared, by decide⟩

end Nblex
