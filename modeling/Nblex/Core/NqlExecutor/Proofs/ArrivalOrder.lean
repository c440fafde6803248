import Nblex.Core.NqlExecutor.Proofs.Accumulators
import Nblex.Core.NqlExecutor.Proofs.GroupIsolation
import Nblex.Core.NqlExecutor.Proofs.TumblingWindows
import Nblex.Misc.KeyedUpsert
import Nblex.Parsers.NqlParser
import Mathlib.Algebra.BigOperators.Group.Finset.Basic

/-!
# The order of arrival

Events of a tumbling window may arrive in any order. What a bucket holds is taken up to the order
in which its distinct values and its percentile values were added; an event then acts on what its
bucket holds, and the events commute. Two integers are close only when they are the same, so that
a value is new for the set of distinct values or is not, whatever other values of the events come
before it. The order matters where an event without group keys meets a group that is new in its
window: it goes to the first bucket of the window, whatever the group of that is.
-/

namespace Nblex

/-! ## What a bucket holds -/

/-- A bucket without its address and without the order of its arrays. -/
structure BucketView where
  groupKeys : Option (List String)
  windowStartNs : Nat
  windowEndNs : Nat
  lastEventNs : Nat
  count : Nat
  sum : ℚ
  sumSquares : ℚ
  min : Option ℚ
  max : Option ℚ
  distinctCount : Nat
  distinctValues : Finset ℚ
  percentileValues : Multiset ℚ
  deriving DecidableEq

def Bucket.view (bucket : Bucket) : BucketView where
  groupKeys := bucket.groupKeys
  windowStartNs := bucket.windowStartNs
  windowEndNs := bucket.windowEndNs
  lastEventNs := bucket.lastEventNs
  count := bucket.count
  sum := bucket.sum
  sumSquares := bucket.sumSquares
  min := bucket.min
  max := bucket.max
  distinctCount := bucket.distinctCount
  distinctValues := bucket.distinctValues.toFinset
  percentileValues := bucket.percentileValues

namespace BucketView

/-- One function with a field. -/
def withValue (view : BucketView) (type : AggFuncType) (value : ℚ) : BucketView :=
  match type with
  | .count => view
  | .sum | .avg =>
      { view with
        sum := view.sum + value
        sumSquares := view.sumSquares + value * value
        min := minWith view.min value
        max := maxWith view.max value }
  | .min => { view with min := minWith view.min value }
  | .max => { view with max := maxWith view.max value }
  | .percentile => { view with percentileValues := value ::ₘ view.percentileValues }
  | .distinct =>
      if ∃ existing ∈ view.distinctValues, closeTo existing value = true then view
      else
        { view with
          distinctValues := insert value view.distinctValues
          distinctCount := view.distinctCount + 1 }

def withFunc (data : Json) (view : BucketView) (func : AggFunc) : BucketView :=
  match func.type, func.field with
  | .count, _ => view
  | _, none => view
  | type, some field => view.withValue type (getNumericValue data field)

def counted (view : BucketView) : BucketView := { view with count := view.count + 1 }

/-- An event of a tumbling window. -/
def withEvent (funcs : List AggFunc) (event : Event) (view : BucketView) : BucketView :=
  funcs.foldl (withFunc (event.data.getD .null)) view.counted

end BucketView

theorem view_updateWithValue (bucket : Bucket) (type : AggFuncType) (value : ℚ) :
    (updateWithValue bucket type value).view = bucket.view.withValue type value := by
  cases type with
  | count | sum | avg | min | max => rfl
  | percentile =>
      have added : ((bucket.percentileValues ++ [value] : List ℚ) : Multiset ℚ) =
          value ::ₘ (bucket.percentileValues : Multiset ℚ) :=
        Multiset.coe_eq_coe.mpr (List.perm_append_singleton value bucket.percentileValues)
      simp [updateWithValue, BucketView.withValue, Bucket.view, added]
  | distinct =>
      have seen : bucket.distinctValues.any (closeTo · value) = true ↔
          ∃ existing ∈ bucket.view.distinctValues, closeTo existing value = true := by
        simp [Bucket.view]
      have added : (bucket.distinctValues ++ [value]).toFinset =
          insert value bucket.distinctValues.toFinset := by
        ext x
        simp
      rw [updateWithValue, BucketView.withValue]
      by_cases close : bucket.distinctValues.any (closeTo · value) = true
      · rw [if_pos close, if_pos (seen.mp close)]
      · rw [if_neg close, if_neg (mt seen.mpr close)]
        simp [Bucket.view, added]

theorem view_updateWithFunc (data : Json) (bucket : Bucket) (func : AggFunc) :
    (updateWithFunc data bucket func).view = bucket.view.withFunc data func := by
  unfold updateWithFunc BucketView.withFunc
  cases func.type <;> cases func.field <;> first | rfl | exact view_updateWithValue _ _ _

/-- An event acts on what the bucket holds. -/
theorem view_updateBucketWithEvent {window : Window} (tumbling : window.type = .tumbling)
    (funcs : List AggFunc) (bucket : Bucket) (event : Event) (now : Nat) :
    (updateBucketWithEvent window funcs bucket event now).view =
      bucket.view.withEvent funcs event := by
  rw [updateBucketWithEvent, if_neg (by simp [tumbling]), BucketView.withEvent]
  have counted : ({ bucket with count := bucket.count + 1 } : Bucket).view =
      bucket.view.counted := rfl
  rw [← counted]
  generalize ({ bucket with count := bucket.count + 1 } : Bucket) = bucket
  induction funcs generalizing bucket with
  | nil => rfl
  | cons func funcs ih => rw [List.foldl_cons, List.foldl_cons, ih, view_updateWithFunc]

/-! ## Events commute -/

theorem minWith_some (old value : ℚ) : minWith (some old) value = some (min value old) := by
  rw [minWith, min_def_lt, apply_ite some]

theorem maxWith_some (old value : ℚ) : maxWith (some old) value = some (max old value) := by
  rw [maxWith, max_def_lt, apply_ite some]

theorem minWith_comm (least : Option ℚ) (a b : ℚ) :
    minWith (minWith least a) b = minWith (minWith least b) a := by
  cases least with
  | none => exact (minWith_some a b).trans ((congrArg some (min_comm b a)).trans
      (minWith_some b a).symm)
  | some old => rw [minWith_some, minWith_some, minWith_some, minWith_some, min_left_comm]

theorem maxWith_comm (greatest : Option ℚ) (a b : ℚ) :
    maxWith (maxWith greatest a) b = maxWith (maxWith greatest b) a := by
  cases greatest with
  | none => exact (maxWith_some a b).trans ((congrArg some (max_comm a b)).trans
      (maxWith_some b a).symm)
  | some old => rw [maxWith_some, maxWith_some, maxWith_some, maxWith_some, max_right_comm]

/-- A function that commutes with every step of a fold. -/
theorem foldl_comm_of {β ι : Type} {g : β → β} {h : β → ι → β} {xs : List ι}
    (comm : ∀ x ∈ xs, ∀ b, g (h b x) = h (g b) x) :
    ∀ b, g (xs.foldl h b) = xs.foldl h (g b) := by
  induction xs with
  | nil => exact fun b => rfl
  | cons x xs ih =>
      intro b
      rw [List.foldl_cons, List.foldl_cons, ← comm x List.mem_cons_self]
      exact ih (fun y member => comm y (List.mem_cons_of_mem x member)) (h b x)

namespace BucketView

/-- A value is new for the distinct values with another integer among them if it is without. -/
theorem seen_insert {m n : ℤ} (different : m ≠ n) (values : Finset ℚ) :
    (∃ existing ∈ insert (m : ℚ) values, closeTo existing n = true) ↔
      ∃ existing ∈ values, closeTo existing n = true := by
  simp [closeTo_intCast, different]

theorem withValue_distinct_comm (view : BucketView) (m n : ℤ) :
    (view.withValue .distinct m).withValue .distinct n =
      (view.withValue .distinct n).withValue .distinct m := by
  by_cases same : m = n
  · rw [same]
  · have seenM := seen_insert (Ne.symm same) view.distinctValues
    have seenN := seen_insert same view.distinctValues
    unfold withValue
    dsimp only
    by_cases closeM : ∃ existing ∈ view.distinctValues, closeTo existing m = true
    · by_cases closeN : ∃ existing ∈ view.distinctValues, closeTo existing n = true
      · simp only [if_pos closeM, if_pos closeN]
      · rw [if_pos closeM, if_neg closeN, if_pos (seenM.mpr closeM)]
    · by_cases closeN : ∃ existing ∈ view.distinctValues, closeTo existing n = true
      · rw [if_neg closeM, if_pos closeN, if_pos (seenN.mpr closeN), if_neg closeM]
      · rw [if_neg closeM, if_neg closeN, if_neg (mt seenM.mp closeM), if_neg (mt seenN.mp closeN),
          Finset.insert_comm]

/-- What the other functions write, a distinct value does not read. -/
theorem withValue_distinct_other (view : BucketView) {type : AggFuncType}
    (other : type ≠ .distinct) (value distinct : ℚ) :
    (view.withValue type value).withValue .distinct distinct =
      (view.withValue .distinct distinct).withValue type value := by
  by_cases seen : ∃ existing ∈ view.distinctValues, closeTo existing distinct = true
  · have still : view.withValue .distinct distinct = view := if_pos seen
    rw [still]
    cases type with
    | distinct => exact absurd rfl other
    | count | sum | avg | min | max | percentile => exact if_pos seen
  · have added : view.withValue .distinct distinct = { view with
        distinctValues := insert distinct view.distinctValues
        distinctCount := view.distinctCount + 1 } := if_neg seen
    rw [added]
    cases type with
    | distinct => exact absurd rfl other
    | count | sum | avg | min | max | percentile => exact if_neg seen

/-- Two values commute. -/
theorem withValue_comm (view : BucketView) (type type' : AggFuncType) (m n : ℤ) :
    (view.withValue type m).withValue type' n = (view.withValue type' n).withValue type m := by
  by_cases left : type = .distinct
  · by_cases right : type' = .distinct
    · rw [left, right, withValue_distinct_comm]
    · rw [left, withValue_distinct_other view right]
  · by_cases right : type' = .distinct
    · rw [right, withValue_distinct_other view left]
    · cases type <;> cases type' <;> first
        | exact absurd rfl left
        | exact absurd rfl right
        | simp only [withValue, add_right_comm, minWith_comm, maxWith_comm, Multiset.cons_swap]

end BucketView

/-- The fields that the functions aggregate hold integers. -/
def IntegerFields (funcs : List AggFunc) (event : Event) : Prop :=
  ∀ func ∈ funcs, func.type ≠ .count → ∀ field, func.field = some field →
    ∃ n : ℤ, event.data.bind (jsonGetPath · field) = some (.integer n)

theorem IntegerFields.value {funcs : List AggFunc} {event : Event}
    (integers : IntegerFields funcs event) {func : AggFunc} (member : func ∈ funcs)
    (aggregates : func.type ≠ .count) {field : String} (named : func.field = some field) :
    ∃ n : ℤ, getNumericValue (event.data.getD .null) field = n := by
  obtain ⟨n, found⟩ := integers func member aggregates field named
  obtain ⟨data, present, inside⟩ := Option.bind_eq_some_iff.mp found
  refine ⟨n, ?_⟩
  rw [present, Option.getD_some, getNumericValue, inside]

namespace BucketView

variable {funcs : List AggFunc} {event event' : Event}

/-- A function leaves what a bucket holds as it is or adds an integer. -/
theorem withFunc_cases (integers : IntegerFields funcs event) {func : AggFunc}
    (member : func ∈ funcs) :
    (∀ view : BucketView, view.withFunc (event.data.getD .null) func = view) ∨
      ∃ n : ℤ, ∀ view : BucketView,
        view.withFunc (event.data.getD .null) func = view.withValue func.type n := by
  by_cases count : func.type = .count
  · refine .inl fun view => ?_
    rw [withFunc, count]
  · cases named : func.field with
    | none =>
        refine .inl fun view => ?_
        rw [withFunc, named]
        cases func.type <;> rfl
    | some field =>
        obtain ⟨n, value⟩ := integers.value member count named
        refine .inr ⟨n, fun view => ?_⟩
        rw [withFunc, named]
        cases type : func.type with
        | count => exact absurd type count
        | sum | avg | min | max | percentile | distinct => exact congrArg (view.withValue _) value

theorem withFunc_comm (integers : IntegerFields funcs event)
    (integers' : IntegerFields funcs event')
    {func func' : AggFunc} (member : func ∈ funcs) (member' : func' ∈ funcs) (view : BucketView) :
    (view.withFunc (event.data.getD .null) func).withFunc (event'.data.getD .null) func' =
      (view.withFunc (event'.data.getD .null) func').withFunc (event.data.getD .null) func := by
  rcases withFunc_cases integers member with idle | ⟨m, adds⟩
  · rw [idle, idle]
  · rcases withFunc_cases integers' member' with idle' | ⟨n, adds'⟩
    · rw [idle', idle']
    · rw [adds, adds, adds', adds', withValue_comm]

theorem withFunc_counted (integers : IntegerFields funcs event) {func : AggFunc}
    (member : func ∈ funcs) (view : BucketView) :
    view.counted.withFunc (event.data.getD .null) func =
      (view.withFunc (event.data.getD .null) func).counted := by
  rcases withFunc_cases integers member with idle | ⟨n, adds⟩
  · rw [idle, idle]
  · rw [adds, adds]
    cases func.type with
    | count | sum | avg | min | max | percentile => rfl
    | distinct =>
        dsimp only [withValue, counted]
        split <;> rfl

/-- Two events commute. -/
theorem withEvent_comm (integers : IntegerFields funcs event)
    (integers' : IntegerFields funcs event') (view : BucketView) :
    (view.withEvent funcs event).withEvent funcs event' =
      (view.withEvent funcs event').withEvent funcs event := by
  have counts : ∀ e, IntegerFields funcs e → ∀ view : BucketView,
      (funcs.foldl (withFunc (e.data.getD .null)) view).counted =
        funcs.foldl (withFunc (e.data.getD .null)) view.counted := by
    intro e integers view
    exact foldl_comm_of (fun func member view => (withFunc_counted integers member view).symm) view
  have folds : ∀ view : BucketView,
      funcs.foldl (withFunc (event'.data.getD .null))
          (funcs.foldl (withFunc (event.data.getD .null)) view) =
        funcs.foldl (withFunc (event.data.getD .null))
          (funcs.foldl (withFunc (event'.data.getD .null)) view) := by
    refine foldl_comm_of (g := fun view => funcs.foldl (withFunc (event'.data.getD .null)) view)
      fun func member view => ?_
    exact (foldl_comm_of (g := fun view => view.withFunc (event.data.getD .null) func)
      (fun func' member' view => withFunc_comm integers' integers member' member view) view).symm
  unfold withEvent
  rw [counts event integers, counts event' integers', folds]

end BucketView

/-! ## Events of a tumbling query -/

/-- The group and the window of a bucket. -/
def BucketView.key (view : BucketView) : Option (List String) × Nat :=
  (view.groupKeys, view.windowStartNs)

theorem BucketView.key_withEvent (funcs : List AggFunc) (event : Event) (view : BucketView) :
    (view.withEvent funcs event).key = view.key := by
  have kept : ∀ view : BucketView,
      (funcs.foldl (withFunc (event.data.getD .null)) view).key = view.key := by
    induction funcs with
    | nil => exact fun view => rfl
    | cons func funcs ih =>
        intro view
        rw [List.foldl_cons, ih, withFunc]
        cases func.type <;> cases func.field <;> first
          | rfl
          | exact (apply_ite key _ _ _).trans (ite_self _)
  exact kept view.counted

section Arrivals

variable (query : Aggregate)

/-- The group and the window of an event. -/
def eventKey (event : Event) : Option (List String) × Nat :=
  (extractGroupKeys query.groupByFields event,
    u64Mul (event.timestampNs / windowSizeNs query.window) (windowSizeNs query.window))

/-- What a new bucket of a group and a window holds. -/
def newView (key : Option (List String) × Nat) : BucketView :=
  (newBucket 0 key.1 key.2 (u64Add key.2 (windowSizeNs query.window))).view

/-- The group and the window of the first bucket of a window, or those of a new bucket without keys
    if the window has none. -/
def firstKey (keys : List (Option (List String) × Nat)) (start : Nat) :
    Option (List String) × Nat :=
  (keys.find? fun key => decide (key.2 = start)).getD (none, start)

/-- The group and the window of the bucket an event goes to: its own, unless it has no group
    keys. -/
def arrivalKey (keys : List (Option (List String) × Nat)) (event : Event) :
    Option (List String) × Nat :=
  if extractGroupKeys query.groupByFields event = none then firstKey keys (eventKey query event).2
  else eventKey query event

/-- What the buckets hold after an event. -/
def arriveOne (views : List BucketView) (event : Event) : List BucketView :=
  let key := arrivalKey query (views.map BucketView.key) event
  upsert (fun view => decide (view.key = key)) (newView query key)
    (BucketView.withEvent query.funcs event) views

/-- What the buckets hold after events. -/
def arrive (events : List Event) (views : List BucketView) : List BucketView :=
  events.foldl (arriveOne query) views

variable {query} {views : List BucketView} {event : Event}

theorem firstKey_snd (keys : List (Option (List String) × Nat)) (start : Nat) :
    (firstKey keys start).2 = start := by
  unfold firstKey
  cases search : keys.find? fun key => decide (key.2 = start) with
  | none => rfl
  | some key =>
      have passes := List.find?_some search
      exact of_decide_eq_true passes

theorem firstKey_cons_of_eq {key : Option (List String) × Nat} {start : Nat} (here : key.2 = start)
    (keys : List (Option (List String) × Nat)) : firstKey (key :: keys) start = key := by
  simp [firstKey, here]

theorem firstKey_cons_of_ne {key : Option (List String) × Nat} {start : Nat} (other : key.2 ≠ start)
    (keys : List (Option (List String) × Nat)) :
    firstKey (key :: keys) start = firstKey keys start := by
  simp [firstKey, other]

/-- A window without a bucket of its first key has no bucket. -/
theorem firstKey_of_not_mem {keys : List (Option (List String) × Nat)} {start : Nat}
    (absent : firstKey keys start ∉ keys) : firstKey keys start = (none, start) := by
  unfold firstKey at absent ⊢
  cases search : keys.find? fun key => decide (key.2 = start) with
  | none => rfl
  | some key =>
      rw [search] at absent
      exact absurd (List.mem_of_find?_eq_some search) absent

theorem arrivalKey_of_unkeyed (keys : List (Option (List String) × Nat))
    (unkeyed : extractGroupKeys query.groupByFields event = none) :
    arrivalKey query keys event = firstKey keys (eventKey query event).2 := if_pos unkeyed

theorem arrivalKey_of_keyed (keys : List (Option (List String) × Nat))
    (keyed : extractGroupKeys query.groupByFields event ≠ none) :
    arrivalKey query keys event = eventKey query event := if_neg keyed

theorem arrivalKey_snd (keys : List (Option (List String) × Nat)) (event : Event) :
    (arrivalKey query keys event).2 = (eventKey query event).2 := by
  unfold arrivalKey
  split
  · exact firstKey_snd keys _
  · rfl

/-- An event puts a new bucket in front or leaves the groups and windows of the list. -/
theorem arriveOne_keys (views : List BucketView) (event : Event) :
    let key := arrivalKey query (views.map BucketView.key) event
    ((arriveOne query views event).map BucketView.key = views.map BucketView.key ∧
        key ∈ views.map BucketView.key) ∨
      ((arriveOne query views event).map BucketView.key = key :: views.map BucketView.key ∧
        key ∉ views.map BucketView.key) := by
  dsimp only
  generalize made : arrivalKey query (views.map BucketView.key) event = key
  rw [arriveOne, made]
  cases search : views.find? fun view => decide (view.key = key) with
  | none =>
      right
      rw [upsert, touch_of_find_none search, Option.getD_none, List.map_cons,
        BucketView.key_withEvent]
      refine ⟨rfl, fun member => ?_⟩
      obtain ⟨view, inside, here⟩ := List.mem_map.mp member
      exact List.find?_eq_none.mp search view inside (decide_eq_true here)
  | some view =>
      left
      have here : view.key = key := of_decide_eq_true (List.find?_some
        (p := fun view : BucketView => decide (view.key = key)) search)
      have inside := List.mem_of_find?_eq_some search
      obtain ⟨front, back, rfl, touched⟩ := touch_of_find_some
        (f := BucketView.withEvent query.funcs event) search
      rw [upsert, touched, Option.getD_some, List.map_append, List.map_append, List.map_cons,
        List.map_cons, BucketView.key_withEvent]
      exact ⟨rfl, here ▸ List.mem_append_right _ List.mem_cons_self⟩

end Arrivals

section Steps

variable {query : Aggregate} {state : AggState} {event : Event}

theorem mem_findOrCreate {found : Option Bucket} {keys : Option (List String)} {ws we : Nat}
    {bucket : Bucket} (member : bucket ∈ (findOrCreate state found keys ws we).1.buckets) :
    bucket ∈ state.buckets ∨ bucket.groupKeys = keys := by
  cases found with
  | some old => exact .inl member
  | none =>
      rcases List.mem_cons.mp member with rfl | old
      · exact .inr rfl
      · exact .inl old

theorem AggState.Labelled.findOrCreate_updateAt (labelled : state.Labelled query)
    {keys : Option (List String)} (label : keys = none ∨ KeysFit query.groupByFields keys)
    (found : Option Bucket) (ws we addr : Nat) {f : Bucket → Bucket} (quiet : Quiet f) :
    ((findOrCreate state found keys ws we).1.updateAt addr f).Labelled query := by
  intro bucket member
  obtain ⟨old, inside, same⟩ := updateAt_groupKeys quiet.groupKeys member
  rw [same]
  rcases mem_findOrCreate inside with before | new
  · exact labelled old before
  · exact new ▸ label

/-- Every step keeps this. -/
theorem AggState.Labelled.step [Pcre2] (wf : state.WellFormed query)
    (labelled : state.Labelled query) (tumbling : query.window.type = .tumbling)
    (positive : 0 < windowSizeNs query.window) {op : AggOp} {next : AggState}
    {emitted : List Bucket} (stepped : aggStep query state op = some (next, emitted)) :
    next.Labelled query := by
  cases op with
  | event event now now' =>
      rw [aggStep, executeAggregate] at stepped
      by_cases accepts : whereAccepts query event = true
      · rw [if_pos accepts, aggregateEvent_tumbling wf tumbling positive] at stepped
        obtain ⟨rfl, -⟩ := Prod.mk.inj (Option.some.inj stepped)
        exact labelled.findOrCreate_updateAt (extractGroupKeys_keyed query.groupByFields event)
          _ _ _ _ (eventUpdate_quiet query event now')
      · rw [if_neg accepts] at stepped
        obtain ⟨rfl, -⟩ := Prod.mk.inj (Option.some.inj stepped)
        exact labelled
  | tick now =>
      intro bucket member
      obtain ⟨old, inside, -, keys⟩ := windowFlushCb_kept stepped bucket member
      rw [keys]
      exact labelled old inside

/-- The first bucket of a window is the first under its key. -/
theorem find?_firstKey (buckets : List Bucket) (start : Nat) :
    buckets.find? (fun bucket => bucket.windowStartNs == start) =
      buckets.find? fun bucket => decide (bucket.view.key =
        firstKey ((buckets.map Bucket.view).map BucketView.key) start) := by
  induction buckets with
  | nil => rfl
  | cons bucket buckets ih =>
      rw [List.map_cons, List.map_cons]
      by_cases here : bucket.windowStartNs = start
      · rw [firstKey_cons_of_eq here, List.find?_cons_of_pos (by simpa using here)]
        exact (List.find?_cons_of_pos (p := fun other : Bucket =>
          decide (other.view.key = bucket.view.key)) (decide_eq_true rfl)).symm
      · have other : bucket.view.key ≠
            firstKey ((buckets.map Bucket.view).map BucketView.key) start := by
          intro same
          exact here ((congrArg Prod.snd same).trans (firstKey_snd _ start))
        rw [firstKey_cons_of_ne here, List.find?_cons_of_neg (by simpa using here),
          List.find?_cons_of_neg (by simpa using other), ih]

/-- The search of the executor, in terms of the key an event goes to. -/
theorem findBucketByWindow_arrivalKey (labelled : state.Labelled query) (event : Event) :
    findBucketByWindow state (eventKey query event).1 (eventKey query event).2 =
      state.buckets.find? fun bucket => decide (bucket.view.key =
        arrivalKey query ((state.buckets.map Bucket.view).map BucketView.key) event) := by
  rw [findBucketByWindow]
  by_cases unkeyed : extractGroupKeys query.groupByFields event = none
  · rw [arrivalKey_of_unkeyed _ unkeyed, ← find?_firstKey,
      show (eventKey query event).1 = none from unkeyed]
    rfl
  · have fit := (extractGroupKeys_keyed query.groupByFields event).resolve_left unkeyed
    rw [arrivalKey_of_keyed _ unkeyed]
    refine List.find?_congr fun bucket member => ?_
    rw [show (eventKey query event).1 = extractGroupKeys query.groupByFields event from rfl,
      compareGroupKeys_labelled fit (labelled bucket member)]
    simp [BucketView.key, Bucket.view, eventKey, Bool.beq_eq_decide_eq, Prod.ext_iff]

/-- A new bucket is one of the event's own group and window. -/
theorem arrivalKey_of_not_mem {views : List BucketView}
    (absent : arrivalKey query (views.map BucketView.key) event ∉ views.map BucketView.key) :
    arrivalKey query (views.map BucketView.key) event = eventKey query event := by
  by_cases unkeyed : extractGroupKeys query.groupByFields event = none
  · rw [arrivalKey_of_unkeyed _ unkeyed] at absent ⊢
    rw [firstKey_of_not_mem absent]
    exact Prod.ext unkeyed.symm rfl
  · rw [arrivalKey_of_keyed _ unkeyed]

/-- An event goes to the bucket of its group and window, or to a new one. -/
theorem aggregateEvent_arrives (wf : state.WellFormed query) (labelled : state.Labelled query)
    (tumbling : query.window.type = .tumbling) (positive : 0 < windowSizeNs query.window)
    (timed : event.timestampNs ≠ 0) (now now' : Nat) :
    ∃ next, aggregateEvent state event now now' = some (next, []) ∧
      next.Labelled query ∧
      next.buckets.map Bucket.view = arriveOne query (state.buckets.map Bucket.view) event := by
  have stepped := aggregateEvent_tumbling wf tumbling positive event now now'
  rw [eventTimestamp_of_ne_zero now timed] at stepped
  have quiet := eventUpdate_quiet query event now'
  have search := findBucketByWindow_arrivalKey labelled event
  have found := wf.findOrCreate (findBucketByWindow state (eventKey query event).1
    (eventKey query event).2) (eventKey query event).1 (eventKey query event).2
    (u64Add (eventKey query event).2 (windowSizeNs query.window))
    ((bucketShape_tumbling tumbling).mpr ⟨positive, rfl⟩)
  refine ⟨_, stepped, ?_, ?_⟩
  · exact labelled.findOrCreate_updateAt (extractGroupKeys_keyed query.groupByFields event)
      _ _ _ _ quiet
  · refine (congrArg (List.map Bucket.view) (buckets_findOrCreate found.addrs search)).trans ?_
    refine (upsert_map (q := fun view => decide (view.key =
        arrivalKey query ((state.buckets.map Bucket.view).map BucketView.key) event))
      (g := BucketView.withEvent query.funcs event) (fun bucket => rfl)
      (fun bucket => view_updateBucketWithEvent tumbling query.funcs bucket event now')
      _ _).trans (upsert_congr_new fun missed => ?_)
    have absent : arrivalKey query ((state.buckets.map Bucket.view).map BucketView.key) event ∉
        (state.buckets.map Bucket.view).map BucketView.key := by
      intro member
      obtain ⟨view, inside, here⟩ := List.mem_map.mp member
      exact List.find?_eq_none.mp missed view inside (decide_eq_true here)
    rw [arrivalKey_of_not_mem absent]
    rfl

end Steps

/-! ## Events in another order -/

section Order

variable {query : Aggregate} {views : List BucketView} {events : List Event}

/-- The group of every event with group keys has a bucket in the window if an event without group
    keys comes to the same window. -/
def Settled (query : Aggregate) (events : List Event)
    (keys : List (Option (List String) × Nat)) : Prop :=
  ∀ unkeyed ∈ events, ∀ event ∈ events,
    extractGroupKeys query.groupByFields unkeyed = none →
      extractGroupKeys query.groupByFields event ≠ none →
        (eventKey query unkeyed).2 = (eventKey query event).2 → eventKey query event ∈ keys

/-- On the way through the events each goes where it would go in the list that is there at first. -/
structure Bound (query : Aggregate) (events : List Event)
    (keys now : List (Option (List String) × Nat)) : Prop where
  kept : keys ⊆ now
  same : ∀ event ∈ events, arrivalKey query now event = arrivalKey query keys event

theorem Bound.step {keys : List (Option (List String) × Nat)} (settled : Settled query events keys)
    (bound : Bound query events keys (views.map BucketView.key)) {event : Event}
    (member : event ∈ events) :
    Bound query events keys ((arriveOne query views event).map BucketView.key) := by
  rcases arriveOne_keys views event with ⟨same, -⟩ | ⟨added, absent⟩
  · rw [same]
    exact bound
  · rw [added]
    refine ⟨fun key inside => List.mem_cons_of_mem _ (bound.kept inside), ?_⟩
    intro other inside
    have before := bound.same other inside
    by_cases unkeyed : extractGroupKeys query.groupByFields other = none
    · rw [arrivalKey_of_unkeyed _ unkeyed] at before
      rw [arrivalKey_of_unkeyed _ unkeyed, ← before]
      by_cases here : (eventKey query event).2 = (eventKey query other).2
      · rw [firstKey_cons_of_eq ((arrivalKey_snd _ event).trans here)]
        by_cases own : extractGroupKeys query.groupByFields event = none
        · rw [arrivalKey_of_unkeyed _ own, here]
        · -- a new bucket of a group in the window of an event without keys
          rw [arrivalKey_of_keyed _ own] at absent
          exact absurd (bound.kept (settled other inside event member unkeyed own here.symm)) absent
      · rw [firstKey_cons_of_ne]
        rwa [arrivalKey_snd]
    · rw [← before, arrivalKey_of_keyed _ unkeyed, arrivalKey_of_keyed _ unkeyed]

/-- Settled events are upserts under keys that do not change on the way. -/
theorem arrive_eq_upsertAll {keys : List (Option (List String) × Nat)}
    (settled : Settled query events keys) :
    ∀ {rest : List Event} {views : List BucketView}, rest ⊆ events →
      Bound query events keys (views.map BucketView.key) →
      arrive query rest views = upsertAll BucketView.key (arrivalKey query keys) (newView query)
        (fun event view => view.withEvent query.funcs event) rest views := by
  intro rest
  induction rest with
  | nil =>
      intro views _ _
      rw [arrive, upsertAll, List.foldl_nil, List.foldl_nil]
  | cons event rest ih =>
      intro views inside bound
      have member := inside List.mem_cons_self
      have later := ih (fun e later => inside (List.mem_cons_of_mem _ later))
        (bound.step settled member)
      rw [arrive, upsertAll, arriveOne, bound.same event member] at later
      rw [arrive, upsertAll, List.foldl_cons, List.foldl_cons, arriveOne, bound.same event member]
      exact later

/-- Settled events in another order leave buckets that hold the same. -/
theorem arrive_perm {events' : List Event} (perm : events.Perm events')
    (integers : ∀ event ∈ events, IntegerFields query.funcs event)
    (settled : Settled query events (views.map BucketView.key)) :
    (arrive query events views).Perm (arrive query events' views) := by
  have bound : Bound query events (views.map BucketView.key) (views.map BucketView.key) :=
    ⟨fun _ inside => inside, fun _ _ => rfl⟩
  rw [arrive_eq_upsertAll settled (fun _ inside => inside) bound,
    arrive_eq_upsertAll settled perm.symm.subset bound]
  refine perm_of_recordsUnder BucketView.key fun k => ?_
  refine upsertAll_perm (fun event view => BucketView.key_withEvent query.funcs event view)
    (fun _ => rfl) perm ?_ views k
  intro event member event' member' view
  exact BucketView.withEvent_comm (integers event' member') (integers event member) view

/-! An event without keys that comes to a window after a new group is counted in that group, and not
if it comes before. -/

/-- The events that the buckets of a group and a window have counted. -/
def countUnder (key : Option (List String) × Nat) (views : List BucketView) : Nat :=
  ((recordsUnder BucketView.key key views).map BucketView.count).sum

theorem countUnder_perm {views' : List BucketView} (perm : views.Perm views')
    (key : Option (List String) × Nat) : countUnder key views = countUnder key views' :=
  ((perm.filter _).map BucketView.count).sum_eq

theorem countUnder_of_not_mem {key : Option (List String) × Nat}
    (absent : key ∉ views.map BucketView.key) : countUnder key views = 0 := by
  have none : recordsUnder BucketView.key key views = [] := by
    refine List.filter_eq_nil_iff.mpr fun view member here => ?_
    exact absent (of_decide_eq_true here ▸ List.mem_map_of_mem member)
  rw [countUnder, none]
  rfl

theorem count_withEvent (funcs : List AggFunc) (event : Event) (view : BucketView) :
    (view.withEvent funcs event).count = view.count + 1 := by
  have kept : ∀ view : BucketView,
      (funcs.foldl (BucketView.withFunc (event.data.getD .null)) view).count = view.count := by
    induction funcs with
    | nil => exact fun view => rfl
    | cons func funcs ih =>
        intro view
        rw [List.foldl_cons, ih, BucketView.withFunc]
        cases func.type <;> cases func.field <;> first
          | rfl
          | exact (apply_ite BucketView.count _ _ _).trans (ite_self _)
  exact kept view.counted

theorem countUnder_arriveOne (key : Option (List String) × Nat) (views : List BucketView)
    (event : Event) :
    countUnder key (arriveOne query views event) = countUnder key views +
      if arrivalKey query (views.map BucketView.key) event = key then 1 else 0 := by
  rw [arriveOne]
  generalize arrivalKey query (views.map BucketView.key) event = goes
  by_cases here : goes = key
  · subst here
    have fresh : (newView query goes).key = goes := rfl
    rw [if_pos rfl, countUnder, countUnder,
      recordsUnder_upsert (fun view => BucketView.key_withEvent query.funcs event view) fresh]
    cases recordsUnder BucketView.key goes views with
    | nil => simp [onFirst, count_withEvent, newView, newBucket, Bucket.view]
    | cons view rest =>
        simp only [onFirst, List.map_cons, List.sum_cons, count_withEvent]
        omega
  · have fresh : (newView query goes).key = goes := rfl
    rw [if_neg here, countUnder, countUnder, Nat.add_zero,
      recordsUnder_upsert_of_ne (fun view => BucketView.key_withEvent query.funcs event view) fresh
        here]

/-- The events of a group and a window. -/
def eventsUnder (query : Aggregate) (key : Option (List String) × Nat) (events : List Event) :
    Nat :=
  events.countP fun event => decide (eventKey query event = key)

section Group

variable (query) (key : Option (List String) × Nat)

/-- The buckets of a group count the events of the group, at least. -/
theorem le_countUnder_arrive (grouped : key.1 ≠ none) (events : List Event) :
    ∀ views : List BucketView,
      countUnder key views + eventsUnder query key events ≤
        countUnder key (arrive query events views) := by
  induction events with
  | nil => exact fun views => Nat.le_refl _
  | cons event events ih =>
      intro views
      have later := ih (arriveOne query views event)
      rw [countUnder_arriveOne] at later
      rw [arrive, List.foldl_cons]
      refine Nat.le_trans ?_ later
      rw [eventsUnder, List.countP_cons, eventsUnder]
      by_cases own : eventKey query event = key
      · have keyed : extractGroupKeys query.groupByFields event ≠ none := by
          intro unkeyed
          exact grouped (own ▸ unkeyed)
        rw [arrivalKey_of_keyed _ keyed, if_pos own, if_pos (decide_eq_true own)]
        omega
      · rw [if_neg (by simpa using own)]
        omega

/-- They count no others if all events have keys. -/
theorem countUnder_arrive_keyed {events : List Event}
    (keyed : ∀ event ∈ events, extractGroupKeys query.groupByFields event ≠ none) :
    ∀ views : List BucketView, countUnder key (arrive query events views) =
      countUnder key views + eventsUnder query key events := by
  induction events with
  | nil => exact fun views => rfl
  | cons event events ih =>
      intro views
      obtain ⟨here, later⟩ := List.forall_mem_cons.mp keyed
      have rest := ih later (arriveOne query views event)
      rw [countUnder_arriveOne, arrivalKey_of_keyed _ here] at rest
      rw [arrive, List.foldl_cons]
      refine rest.trans ?_
      rw [eventsUnder, eventsUnder, List.countP_cons]
      simp only [decide_eq_true_eq]
      omega

/-- Events without keys open no bucket of a group. -/
theorem not_mem_arrive_unkeyed (grouped : key.1 ≠ none) {events : List Event}
    (unkeyed : ∀ event ∈ events, extractGroupKeys query.groupByFields event = none) :
    ∀ views : List BucketView, key ∉ views.map BucketView.key →
      key ∉ (arrive query events views).map BucketView.key := by
  induction events with
  | nil => exact fun views absent => absent
  | cons event events ih =>
      intro views absent
      obtain ⟨here, later⟩ := List.forall_mem_cons.mp unkeyed
      refine ih later _ ?_
      rcases arriveOne_keys views event with ⟨same, -⟩ | ⟨added, new⟩
      · rwa [same]
      · rw [added, List.mem_cons, not_or]
        refine ⟨fun same => grouped ?_, absent⟩
        rw [same, arrivalKey_of_not_mem new]
        exact here

/-- If the events without keys come first they are not counted in a new group. -/
theorem countUnder_arrive_late (grouped : key.1 ≠ none) (absent : key ∉ views.map BucketView.key)
    (events : List Event) :
    countUnder key (arrive query
        (events.filter (fun e => decide (extractGroupKeys query.groupByFields e = none)) ++
          events.filter fun e => !decide (extractGroupKeys query.groupByFields e = none)) views) ≤
      eventsUnder query key events := by
  have unkeyed : ∀ e ∈ events.filter fun e =>
      decide (extractGroupKeys query.groupByFields e = none),
        extractGroupKeys query.groupByFields e = none :=
    fun e member => of_decide_eq_true (List.mem_filter.mp member).2
  have none := not_mem_arrive_unkeyed query key grouped unkeyed views absent
  rw [arrive, List.foldl_append]
  refine Nat.le_trans (Nat.le_of_eq (countUnder_arrive_keyed query key (fun e member => ?_) _)) ?_
  · simpa using (List.mem_filter.mp member).2
  · refine Nat.le_trans (Nat.le_of_eq (congrArg (· + _) (countUnder_of_not_mem none))) ?_
    rw [Nat.zero_add]
    exact List.filter_sublist.countP_le

end Group

/-- An event without keys that comes right after the first event of a group. -/
theorem countUnder_arrive_intruder {event intruder : Event}
    (keyed : extractGroupKeys query.groupByFields event ≠ none)
    (unkeyed : extractGroupKeys query.groupByFields intruder = none)
    (window : (eventKey query intruder).2 = (eventKey query event).2)
    (absent : eventKey query event ∉ views.map BucketView.key) (rest : List Event) :
    2 + eventsUnder query (eventKey query event) rest ≤
      countUnder (eventKey query event) (arrive query (event :: intruder :: rest) views) := by
  have first : countUnder (eventKey query event) (arriveOne query views event) = 1 := by
    rw [countUnder_arriveOne, countUnder_of_not_mem absent, arrivalKey_of_keyed _ keyed, if_pos rfl]
  have front : (arriveOne query views event).map BucketView.key =
      eventKey query event :: views.map BucketView.key := by
    rcases arriveOne_keys views event with ⟨-, old⟩ | ⟨added, -⟩
    · rw [arrivalKey_of_keyed _ keyed] at old
      exact absurd old absent
    · rwa [arrivalKey_of_keyed _ keyed] at added
  have goes : arrivalKey query ((arriveOne query views event).map BucketView.key) intruder =
      eventKey query event := by
    rw [front, arrivalKey_of_unkeyed _ unkeyed, firstKey_cons_of_eq window.symm]
  have later := le_countUnder_arrive query (eventKey query event) keyed rest
    (arriveOne query (arriveOne query views event) intruder)
  rwa [countUnder_arriveOne, goes, if_pos rfl, first] at later

/-- Unsettled events can come in two orders that leave buckets that hold something else. -/
theorem arrive_diverges (unsettled : ¬Settled query events (views.map BucketView.key)) :
    ∃ first second, first.Perm events ∧ second.Perm events ∧
      ¬(arrive query first views).Perm (arrive query second views) := by
  simp only [Settled, not_forall] at unsettled
  obtain ⟨intruder, member, event, inside, unkeyed, keyed, window, absent⟩ := unsettled
  -- the event of the new group and then the one without keys, before all others
  obtain ⟨front, back, rfl⟩ := List.append_of_mem inside
  have split := @List.perm_middle _ event front back
  have other : intruder ∈ front ++ back := by
    rcases List.mem_cons.mp (split.subset member) with rfl | other
    · exact absurd unkeyed keyed
    · exact other
  obtain ⟨front', back', rest⟩ := List.append_of_mem other
  rw [rest] at split
  have early := split.trans (List.perm_middle.cons event)
  -- all events without keys before all others
  have late := List.filter_append_perm
    (fun e => decide (extractGroupKeys query.groupByFields e = none)) (front ++ event :: back)
  refine ⟨_, _, late, early.symm, fun same => ?_⟩
  have many := countUnder_arrive_intruder keyed unkeyed window absent (front' ++ back')
  have few := countUnder_arrive_late query (eventKey query event) keyed absent
    (front ++ event :: back)
  have apart : eventKey query intruder ≠ eventKey query event := fun equal =>
    keyed ((congrArg Prod.fst equal).symm.trans unkeyed)
  have all : eventsUnder query (eventKey query event) (front ++ event :: back) =
      eventsUnder query (eventKey query event) (front' ++ back') + 1 := by
    rw [eventsUnder, early.countP_eq, List.countP_cons, List.countP_cons]
    simp [eventsUnder, apart]
  rw [countUnder_perm same, all] at few
  omega

end Order

/-! ## Results -/

/-- A percentile does not depend on the order of the values. -/
theorem percentileOf_perm {values values' : List ℚ} (perm : values.Perm values')
    (percentile : ℚ) : percentileOf values percentile = percentileOf values' percentile := by
  obtain ⟨sorts, order⟩ := exchangeSort_sorts values.length values le_rfl
  rw [percentileOf_eq sorts.symm order, percentileOf_eq (perm.symm.trans sorts.symm) order]

theorem aggFuncValue_view {bucket bucket' : Bucket} (same : bucket.view = bucket'.view)
    (func : AggFunc) : aggFuncValue bucket func = aggFuncValue bucket' func := by
  have percentiles : bucket.percentileValues.Perm bucket'.percentileValues :=
    Multiset.coe_eq_coe.mp (congrArg BucketView.percentileValues same)
  rw [aggFuncValue, aggFuncValue, show bucket.count = bucket'.count from congrArg (·.count) same,
    show bucket.sum = bucket'.sum from congrArg (·.sum) same,
    show bucket.min = bucket'.min from congrArg (·.min) same,
    show bucket.max = bucket'.max from congrArg (·.max) same,
    show bucket.distinctCount = bucket'.distinctCount from congrArg (·.distinctCount) same,
    percentileOf_perm percentiles]

/-- A result is determined by what the bucket holds. -/
theorem createAggResultEvent_view {state state' : AggState} (window : state.window = state'.window)
    (funcs : state.funcs = state'.funcs) (fields : state.groupByFields = state'.groupByFields)
    {bucket bucket' : Bucket} (same : bucket.view = bucket'.view) (now : Nat) :
    createAggResultEvent state bucket now = createAggResultEvent state' bucket' now := by
  have metrics : aggMetrics state.funcs bucket = aggMetrics state'.funcs bucket' := by
    rw [aggMetrics, aggMetrics, funcs]
    refine congrArg (fun f => state'.funcs.foldl f _) (funext fun metrics => funext fun func => ?_)
    rw [aggFuncValue_view same]
  have group : aggGroup state.groupByFields bucket = aggGroup state'.groupByFields bucket' := by
    rw [aggGroup, aggGroup, fields,
      show bucket.groupKeys = bucket'.groupKeys from congrArg (·.groupKeys) same]
  have bounds : aggWindow state.window bucket = aggWindow state'.window bucket' := by
    rw [aggWindow, aggWindow, window,
      show bucket.windowStartNs = bucket'.windowStartNs from congrArg (·.windowStartNs) same,
      show bucket.windowEndNs = bucket'.windowEndNs from congrArg (·.windowEndNs) same]
  rw [createAggResultEvent, createAggResultEvent, metrics, group, bounds]

/-- A map that factors through another one. -/
theorem perm_map_of_factors {α β γ : Type} {f : α → γ} {g : α → β}
    (factors : Function.FactorsThrough f g) {xs ys : List α}
    (perm : (xs.map g).Perm (ys.map g)) : (xs.map f).Perm (ys.map f) := by
  cases xs with
  | nil =>
      have empty : ys = [] := List.map_eq_nil_iff.mp perm.nil_eq.symm
      rw [empty]
  | cons x xs =>
      have through : ∀ zs : List α,
          (zs.map g).map (Function.extend g f fun _ => f x) = zs.map f := by
        intro zs
        rw [List.map_map]
        exact List.map_congr_left fun z _ => factors.extend_apply _ z
      rw [← through, ← through]
      exact perm.map _

section Flush

variable {query : Aggregate} {state state' : AggState}

/-- A turn of the flush acts on what the bucket holds. -/
theorem tumblingTurn_view {bucket bucket' : Bucket} (same : bucket.view = bucket'.view)
    (window : Window) (now : Nat) :
    (tumblingTurn window now bucket).shouldFlush = (tumblingTurn window now bucket').shouldFlush ∧
      (tumblingTurn window now bucket).bucket.view =
        (tumblingTurn window now bucket').bucket.view := by
  have ends : bucket.windowEndNs = bucket'.windowEndNs := congrArg (·.windowEndNs) same
  have starts : bucket.windowStartNs = bucket'.windowStartNs := congrArg (·.windowStartNs) same
  have counts : bucket.count = bucket'.count := congrArg (·.count) same
  have groups : bucket.groupKeys = bucket'.groupKeys := congrArg (·.groupKeys) same
  have dates : bucket.lastEventNs = bucket'.lastEventNs := congrArg (·.lastEventNs) same
  unfold tumblingTurn
  rw [ends, starts, counts]
  by_cases ended : bucket'.windowEndNs ≤ now
  · rw [if_pos ended, if_pos ended]
    refine ⟨rfl, ?_⟩
    simp only [moveBucket, resetBucket, Bucket.view, groups, dates]
  · rw [if_neg ended, if_neg ended]
    exact ⟨rfl, same⟩

/-- What the flush makes of a bucket. -/
def flushResult (window : Window) (after : AggState) (now clock : Nat) (bucket : Bucket) :
    Option Event :=
  let turn := tumblingTurn window now bucket
  if turn.shouldFlush then some (createAggResultEvent after turn.bucket clock) else none

theorem map_emitted_eq (window : Window) (after : AggState) (now clock : Nat)
    (buckets : List Bucket) :
    (((buckets.map (tumblingTurn window now)).filter (·.shouldFlush)).map FlushStep.bucket).map
        (createAggResultEvent after · clock) =
      (buckets.map (flushResult window after now clock)).filterMap id := by
  induction buckets with
  | nil => rfl
  | cons bucket buckets ih =>
      rw [List.map_cons, List.map_cons, List.filter_cons, List.filterMap_cons, ← ih, id,
        flushResult]
      cases (tumblingTurn window now bucket).shouldFlush <;> rfl

/-- Buckets that hold the same give the same results at a tick. -/
theorem windowFlushCb_view (wf : state.WellFormed query) (wf' : state'.WellFormed query)
    (tumbling : query.window.type = .tumbling)
    (same : (state.buckets.map Bucket.view).Perm (state'.buckets.map Bucket.view)) (now : Nat) :
    ∃ after emitted after' emitted', windowFlushCb state now = some (after, emitted) ∧
      windowFlushCb state' now = some (after', emitted') ∧
      ∀ clock, (emitted.map (createAggResultEvent after · clock)).Perm
        (emitted'.map (createAggResultEvent after' · clock)) := by
  obtain ⟨after, flushed, -⟩ := windowFlushCb_tumbling wf tumbling now
  obtain ⟨after', flushed', -⟩ := windowFlushCb_tumbling wf' tumbling now
  refine ⟨after, _, after', _, flushed, flushed', fun clock => ?_⟩
  have kept := wf.flush flushed
  have kept' := wf'.flush flushed'
  have factors : ∀ {bucket bucket' : Bucket}, bucket.view = bucket'.view →
      flushResult query.window after now clock bucket =
        flushResult query.window after' now clock bucket' := by
    intro bucket bucket' views
    obtain ⟨flushes, turned⟩ := tumblingTurn_view views query.window now
    rw [flushResult, flushResult, flushes, createAggResultEvent_view
      (kept.window.trans kept'.window.symm) (kept.funcs.trans kept'.funcs.symm)
      (kept.groupByFields.trans kept'.groupByFields.symm) turned]
  have results : flushResult query.window after now clock =
      flushResult query.window after' now clock := funext fun bucket => factors rfl
  rw [map_emitted_eq, map_emitted_eq, results]
  refine (perm_map_of_factors (fun bucket bucket' views => ?_) same).filterMap id
  rw [← factors views, results]

end Flush

/-! ## Runs and results -/

section Runs

variable [Pcre2] {query : Aggregate} {state : AggState}

/-- Events with the clock readings of their execution. -/
def arrivalOps (inputs : List (Event × Nat × Nat)) : List AggOp :=
  inputs.map fun input => .event input.1 input.2.1 input.2.2

/-- A list of events without a tick. -/
theorem aggRunFrom_arrivals (tumbling : query.window.type = .tumbling)
    (positive : 0 < windowSizeNs query.window) (inputs : List (Event × Nat × Nat)) :
    ∀ {state : AggState}, state.WellFormed query → state.Labelled query →
      (∀ input ∈ inputs, input.1.timestampNs ≠ 0) →
      ∃ last, aggRunFrom query state (arrivalOps inputs) = some (last, []) ∧
        last.WellFormed query ∧
        last.buckets.map Bucket.view =
          arrive query ((inputs.map Prod.fst).filter (whereAccepts query))
            (state.buckets.map Bucket.view) := by
  induction inputs with
  | nil => exact fun {state} wf _ _ => ⟨state, rfl, wf, rfl⟩
  | cons input inputs ih =>
      intro state wf labelled timed
      obtain ⟨timedHere, timed⟩ := List.forall_mem_cons.mp timed
      by_cases accepts : whereAccepts query input.1 = true
      · obtain ⟨next, stepped, kept, views⟩ := aggregateEvent_arrives wf labelled tumbling
          positive timedHere input.2.1 input.2.2
        have step : aggStep query state (.event input.1 input.2.1 input.2.2) =
            some (next, []) := by
          rw [aggStep, executeAggregate, if_pos accepts, stepped]
        obtain ⟨last, ran, lastWf, held⟩ := ih (wf.step step) kept timed
        refine ⟨last, ?_, lastWf, ?_⟩
        · rw [arrivalOps, List.map_cons, aggRunFrom, step]
          exact congrArg (Option.map _) ran
        · rw [held, views, List.map_cons, List.filter_cons_of_pos accepts]
          rfl
      · have step : aggStep query state (.event input.1 input.2.1 input.2.2) =
            some (state, []) := by
          rw [aggStep, executeAggregate, if_neg accepts]
        obtain ⟨last, ran, lastWf, held⟩ := ih wf labelled timed
        refine ⟨last, ?_, lastWf, ?_⟩
        · rw [arrivalOps, List.map_cons, aggRunFrom, step]
          exact congrArg (Option.map _) ran
        · rw [held, List.map_cons, List.filter_cons_of_neg accepts]

theorem AggReachable.labelled (reachable : AggReachable query state)
    (tumbling : query.window.type = .tumbling) (positive : 0 < windowSizeNs query.window) :
    state.Labelled query := by
  obtain ⟨ops, emitted, run⟩ := reachable
  have kept := aggRunFrom_invariant
    (P := fun state => state.WellFormed query ∧ state.Labelled query)
    (fun stepped inv => ⟨inv.1.step stepped, inv.2.step inv.1 tumbling positive stepped⟩) run
    ⟨newAggState_wellFormed query, nofun⟩
  exact kept.2

/-- The accepted events in another order, with the others behind them. -/
theorem exists_arrivals {inputs : List (Event × Nat × Nat)} {first : List Event}
    (accepted : first.Perm ((inputs.map Prod.fst).filter (whereAccepts query))) :
    ∃ inputs' : List (Event × Nat × Nat), (inputs.map Prod.fst).Perm (inputs'.map Prod.fst) ∧
      (inputs'.map Prod.fst).filter (whereAccepts query) = first := by
  let others := (inputs.map Prod.fst).filter fun event => !whereAccepts query event
  have events : ((first ++ others).map fun event => (event, 0, 0)).map Prod.fst =
      first ++ others := by
    rw [List.map_map]
    exact List.map_id _
  have taken : first.filter (whereAccepts query) = first :=
    List.filter_eq_self.mpr fun event member => (List.mem_filter.mp (accepted.subset member)).2
  have left : others.filter (whereAccepts query) = [] := by
    refine List.filter_eq_nil_iff.mpr fun event member => ?_
    simpa using (List.mem_filter.mp member).2
  refine ⟨(first ++ others).map fun event => (event, 0, 0), ?_, ?_⟩
  · rw [events]
    exact ((accepted.append_right others).trans (List.filter_append_perm _ _)).symm
  · rw [events, List.filter_append, taken, left, List.append_nil]

/-- In every order of the events each group and window comes to have buckets that hold the same, and
    the next tick gives the same results. -/
def OrderIndependent (query : Aggregate) (state : AggState) (inputs : List (Event × Nat × Nat)) :
    Prop :=
  ∀ inputs' : List (Event × Nat × Nat), (inputs.map Prod.fst).Perm (inputs'.map Prod.fst) →
    ∃ last last', aggRunFrom query state (arrivalOps inputs) = some (last, []) ∧
      aggRunFrom query state (arrivalOps inputs') = some (last', []) ∧
      (last.buckets.map Bucket.view).Perm (last'.buckets.map Bucket.view) ∧
      ∀ now, ∃ after emitted after' emitted', windowFlushCb last now = some (after, emitted) ∧
        windowFlushCb last' now = some (after', emitted') ∧
        ∀ clock, (emitted.map (createAggResultEvent after · clock)).Perm
          (emitted'.map (createAggResultEvent after' · clock))

/-- For an event without group keys and an event with group keys of one window, both accepted, the
    group of the second already has a bucket in the window. -/
def SettledArrivals (query : Aggregate) (state : AggState) (inputs : List (Event × Nat × Nat)) :
    Prop :=
  Settled query ((inputs.map Prod.fst).filter (whereAccepts query))
    (state.buckets.map fun bucket => (bucket.groupKeys, bucket.windowStartNs))

omit [Pcre2] in
theorem timed_of_perm {inputs inputs' : List (Event × Nat × Nat)}
    (perm : (inputs.map Prod.fst).Perm (inputs'.map Prod.fst))
    (timed : ∀ input ∈ inputs, input.1.timestampNs ≠ 0) :
    ∀ input ∈ inputs', input.1.timestampNs ≠ 0 := by
  intro input member
  obtain ⟨other, inside, equal⟩ := List.mem_map.mp
    (perm.mem_iff.mpr (List.mem_map_of_mem (f := Prod.fst) member))
  exact equal ▸ timed other inside

/-- If the order makes no difference, all orders of the accepted events leave the same. -/
theorem OrderIndependent.arrive_same (wf : state.WellFormed query)
    (labelled : state.Labelled query) (tumbling : query.window.type = .tumbling)
    (positive : 0 < windowSizeNs query.window) {inputs : List (Event × Nat × Nat)}
    (timed : ∀ input ∈ inputs, input.1.timestampNs ≠ 0)
    (independent : OrderIndependent query state inputs) {first : List Event}
    (accepted : first.Perm ((inputs.map Prod.fst).filter (whereAccepts query))) :
    (arrive query ((inputs.map Prod.fst).filter (whereAccepts query))
      (state.buckets.map Bucket.view)).Perm
        (arrive query first (state.buckets.map Bucket.view)) := by
  obtain ⟨inputs', whole, taken⟩ := exists_arrivals accepted
  obtain ⟨last, ran, -, held⟩ := aggRunFrom_arrivals tumbling positive inputs wf labelled timed
  obtain ⟨last', ran', -, held'⟩ :=
    aggRunFrom_arrivals tumbling positive inputs' wf labelled (timed_of_perm whole timed)
  obtain ⟨final, final', ranFinal, ranFinal', views, -⟩ := independent inputs' whole
  obtain ⟨rfl, -⟩ := Prod.mk.inj (Option.some.inj (ran.symm.trans ranFinal))
  obtain ⟨rfl, -⟩ := Prod.mk.inj (Option.some.inj (ran'.symm.trans ranFinal'))
  rwa [held, held', taken] at views

/-- The order in which events arrive between two ticks makes no difference just in case no event
    without group keys meets a group that is new in its window. -/
theorem arrival_order_iff (reachable : AggReachable query state)
    (tumbling : query.window.type = .tumbling) (size : 0 < query.window.sizeMs)
    (noWrap : query.window.size < 2 ^ 64) {inputs : List (Event × Nat × Nat)}
    (timed : ∀ input ∈ inputs, input.1.timestampNs ≠ 0)
    (integers : ∀ input ∈ inputs, IntegerFields query.funcs input.1) :
    OrderIndependent query state inputs ↔ SettledArrivals query state inputs := by
  have positive : 0 < windowSizeNs query.window := by
    rw [windowSizeNs_of_lt noWrap]
    exact Nat.mul_pos size (by decide)
  have wf := reachable.wellFormed
  have labelled := reachable.labelled tumbling positive
  have keys : state.buckets.map (fun bucket => (bucket.groupKeys, bucket.windowStartNs)) =
      (state.buckets.map Bucket.view).map BucketView.key := by
    rw [List.map_map]
    rfl
  rw [SettledArrivals, keys]
  constructor
  · intro independent
    by_contra unsettled
    obtain ⟨first, second, left, right, different⟩ := arrive_diverges unsettled
    have leftSame := independent.arrive_same wf labelled tumbling positive timed left
    have rightSame := independent.arrive_same wf labelled tumbling positive timed right
    exact different (leftSame.symm.trans rightSame)
  · intro settled inputs' perm
    obtain ⟨last, ran, lastWf, held⟩ :=
      aggRunFrom_arrivals tumbling positive inputs wf labelled timed
    obtain ⟨last', ran', lastWf', held'⟩ :=
      aggRunFrom_arrivals tumbling positive inputs' wf labelled (timed_of_perm perm timed)
    have views : (last.buckets.map Bucket.view).Perm (last'.buckets.map Bucket.view) := by
      rw [held, held']
      refine arrive_perm (perm.filter _) (fun event member => ?_) settled
      obtain ⟨input, inside, rfl⟩ := List.mem_map.mp (List.mem_filter.mp member).1
      exact integers input inside
    exact ⟨last, last', ran, ran', views, windowFlushCb_view lastWf lastWf' tumbling views⟩

end Runs

/-- `aggregate count() by level window tumbling(1s)`. -/
def levelSecondsQuery : Aggregate where
  funcs := [{ type := .count }]
  groupByFields := ["level"]
  whereFilter := none
  window := { type := .tumbling, sizeMs := 1000 }

/-- A log event without data. -/
def unlabelledEvent (timestamp : Nat) : Event where
  type := .log
  timestampNs := timestamp
  input := none
  data := none

/-- Events without data and an error in the first second, and warnings in the next one. -/
def settledInputs : List (Event × Nat × Nat) :=
  [(unlabelledEvent 300, 0, 0), (levelEvent "warn" 1000000500, 0, 0),
    (levelEvent "error" 200, 0, 0),
    (unlabelledEvent 400, 0, 0), (levelEvent "warn" 1000000100, 0, 0)]

theorem arrival_order_iff_levelSecondsQuery :
    ∃ state, @aggRun literalPcre2 levelSecondsQuery [.event (levelEvent "error" 100) 0 0] =
        some (state, []) ∧
      @OrderIndependent literalPcre2 levelSecondsQuery state settledInputs ∧
      ((@aggRunFrom literalPcre2 levelSecondsQuery state (arrivalOps settledInputs)).map
        fun result => result.1.buckets.map fun bucket => (bucket.groupKeys, bucket.count)) =
          some [(some ["warn"], 2), (some ["error"], 4)] := by
  let := literalPcre2
  have reachable : ∀ {state}, aggRun levelSecondsQuery [.event (levelEvent "error" 100) 0 0] =
      some (state, []) → AggReachable levelSecondsQuery state := fun ran => ⟨_, [], ran⟩
  refine ⟨_, rfl, (arrival_order_iff (reachable rfl) rfl (by decide) (by decide) ?_ ?_).mpr ?_, ?_⟩
  · decide
  · intro input _ func member aggregates
    exact absurd (congrArg AggFunc.type (List.mem_singleton.mp member)) aggregates
  · unfold SettledArrivals Settled
    decide
  · decide

/-- An error and then an event without data. -/
def unsettledInputs : List (Event × Nat × Nat) :=
  [(levelEvent "error" 100, 0, 0), (unlabelledEvent 200, 0, 0)]

/-- The event without data is counted as an error if it comes second, and on its own if it comes
    first. -/
theorem unsettledInputs_diverge :
    @nqlParse literalPcre2 "aggregate count() by level window tumbling(1s)".toList =
        some (.single (.aggregate levelSecondsQuery)) ∧
      ((@aggRun literalPcre2 levelSecondsQuery (arrivalOps unsettledInputs)).map
        fun result => result.1.buckets.map fun bucket => (bucket.groupKeys, bucket.count)) =
          some [(some ["error"], 2)] ∧
      ((@aggRun literalPcre2 levelSecondsQuery (arrivalOps unsettledInputs.reverse)).map
        fun result => result.1.buckets.map fun bucket => (bucket.groupKeys, bucket.count)) =
          some [(some ["error"], 1), (none, 1)] ∧
      (∀ input ∈ unsettledInputs, IntegerFields levelSecondsQuery.funcs input.1) ∧
      ¬@OrderIndependent literalPcre2 levelSecondsQuery (newAggState levelSecondsQuery)
        unsettledInputs := by
  let := literalPcre2
  have one : (aggRun levelSecondsQuery (arrivalOps unsettledInputs)).map
      (fun result => result.1.buckets.length) = some 1 := by decide
  have two : (aggRun levelSecondsQuery (arrivalOps unsettledInputs.reverse)).map
      (fun result => result.1.buckets.length) = some 2 := by decide
  refine ⟨by decide, by decide, by decide, ?_, fun independent => ?_⟩
  · intro input _ func member aggregates
    exact absurd (congrArg AggFunc.type (List.mem_singleton.mp member)) aggregates
  · obtain ⟨last, last', ran, ran', views, -⟩ := independent unsettledInputs.reverse
      ((List.reverse_perm unsettledInputs).symm.map Prod.fst)
    rw [aggRun, ran] at one
    rw [aggRun, ran'] at two
    have lengths := views.length_eq
    simp only [List.length_map, Option.map_some, Option.some.injEq] at lengths one two
    omega

end Nblex
