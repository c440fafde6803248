import Nblex.Parsers.DnsParser

/-!
# Names of a DNS message

A name is a walk over the message: a label moves the offset behind itself and makes the name
longer, a pointer moves it anywhere and leaves the name as it is. The room for the name bounds the
labels, and nothing bounds the pointers between two of them.
-/

namespace Nblex

namespace Dns

section Names

variable (memory : Nat → UInt8) (len : Nat)

/-- A pointer inside the message, and where it points. -/
def PointsTo (offset target : Nat) : Prop :=
  offset < len ∧ isPointer (memory offset).toNat = true ∧ target = pointerTarget memory offset

/-- Pointers lead from the offset back to it. -/
def PointerCycle (offset : Nat) : Prop :=
  Relation.TransGen (PointsTo memory len) offset offset

/-- The places a name comes to from its start: the offset, how long the name is by then, and where
    the name ends in the message if a pointer has been followed. -/
inductive NamePlace (start : Nat) : Nat → Nat → Option Nat → Prop where
  | start : NamePlace start start 0 none
  | label {offset length label : Nat} {jump : Option Nat} :
      NamePlace start offset length jump → offset < len → (memory offset).toNat = label →
      label ≠ 0 → isPointer label = false → length + label + 1 < maxLen →
      NamePlace start (offset + 1 + label) (length + (if length = 0 then 0 else 1) + label) jump
  | pointer {offset length target : Nat} {jump : Option Nat} :
      NamePlace start offset length jump → PointsTo memory len offset target →
      NamePlace start target length (some (jump.getD (offset + 2)))

/-- A name of the length that has come to an offset ends there: the offset behind it. -/
inductive NameStops (offset length : Nat) : Nat → Prop where
  | outside : ¬ offset < len → NameStops offset length offset
  | zero : offset < len → (memory offset).toNat = 0 → NameStops offset length (offset + 1)
  | tooLong : offset < len → (memory offset).toNat ≠ 0 →
      isPointer (memory offset).toNat = false →
      ¬ length + (memory offset).toNat + 1 < maxLen → NameStops offset length (offset + 1)

/-- The name from a start comes to an end: its length, and where it ends in the message. -/
def NameEnds (start length after : Nat) : Prop :=
  ∃ offset behind jump, NamePlace memory len start offset length jump ∧
    NameStops memory len offset length behind ∧ after = jump.getD behind

/-- No place of the name lies on a cycle of pointers. -/
def Resolves (start : Nat) : Prop :=
  ∀ offset length jump, NamePlace memory len start offset length jump →
    ¬ PointerCycle memory len offset

/-- The loop that does nothing but follow pointers. -/
def pointerTurn (offset : Nat) : Turn Nat Unit :=
  if offset < len ∧ isPointer (memory offset).toNat = true then
    .again (pointerTarget memory offset)
  else .leave ()

variable {memory len}

theorem goesOn_pointerTurn {offset target : Nat} :
    GoesOn (pointerTurn memory len) offset target ↔ PointsTo memory len offset target := by
  unfold GoesOn pointerTurn PointsTo
  constructor
  · intro again
    split at again
    · next here => exact ⟨here.1, here.2, (Turn.again.inj again).symm⟩
    · cases again
  · rintro ⟨inside, pointer, rfl⟩
    rw [if_pos ⟨inside, pointer⟩]

theorem onCycle_pointerTurn (offset : Nat) :
    OnCycle (pointerTurn memory len) offset ↔ PointerCycle memory len offset := by
  have same : GoesOn (pointerTurn memory len) = PointsTo memory len := by
    funext offset target
    exact propext goesOn_pointerTurn
  rw [OnCycle, PointerCycle, same]

/-- A pointer has fourteen bits. -/
theorem pointerTarget_lt (memory : Nat → UInt8) (offset : Nat) :
    pointerTarget memory offset < 2 ^ 14 := by
  unfold pointerTarget
  apply Nat.or_lt_two_pow
  · have masked : (memory offset).toNat &&& 0x3F ≤ 0x3F := Nat.and_le_right
    rw [Nat.shiftLeft_eq]
    omega
  · have byte := (memory (offset + 1)).toNat_lt
    omega

theorem reaches_pointerTurn_finite (start : Nat) :
    {later | Reaches (pointerTurn memory len) start later}.Finite := by
  apply Set.Finite.subset ((Set.finite_lt_nat (2 ^ 14)).insert start)
  intro later reaches
  rcases Relation.ReflTransGen.cases_tail reaches with same | ⟨before, -, step⟩
  · exact Or.inl same
  · obtain ⟨-, -, target⟩ := goesOn_pointerTurn.mp step
    refine Or.inr ?_
    show later < 2 ^ 14
    rw [target]
    exact pointerTarget_lt memory before

/-! ## Turns of the loop over a name -/

theorem isPointer_ne_zero {length : Nat} (pointer : isPointer length = true) : length ≠ 0 := by
  rintro rfl
  cases pointer

theorem nameTurn_pointer {state : NameState} {target : Nat}
    (points : PointsTo memory len state.offset target) :
    nameTurn memory len state =
      .again ⟨target, state.name, some (state.jumpOffset.getD (state.offset + 2))⟩ := by
  obtain ⟨inside, pointer, rfl⟩ := points
  simp only [nameTurn, if_pos inside, if_neg (isPointer_ne_zero pointer), if_pos pointer]

/-- Where the name ends the loop is left. -/
theorem nameTurn_stops {state : NameState} {behind : Nat}
    (stops : NameStops memory len state.offset state.name.length behind) :
    nameTurn memory len state = .leave ⟨behind, state.name, state.jumpOffset⟩ := by
  cases stops with
  | outside outside => exact if_neg outside
  | zero inside zero => simp only [nameTurn, if_pos inside, if_pos zero]
  | tooLong inside notEnd noPointer tooLong =>
      have noRoom : maxLen ≤ state.name.length + (memory state.offset).toNat + 1 :=
        Nat.le_of_not_lt tooLong
      simp only [nameTurn, if_pos inside, if_neg notEnd, noPointer, if_neg Bool.false_ne_true,
        if_pos noRoom]

theorem nameTurn_label {state : NameState} {label : Nat} (inside : state.offset < len)
    (here : (memory state.offset).toNat = label) (notEnd : label ≠ 0)
    (noPointer : isPointer label = false) (room : state.name.length + label + 1 < maxLen) :
    ∃ name, name.length = state.name.length + (if state.name.length = 0 then 0 else 1) + label ∧
      nameTurn memory len state =
        .again ⟨state.offset + 1 + label, name, state.jumpOffset⟩ := by
  have fits : ¬ maxLen ≤ state.name.length + label + 1 := Nat.not_le_of_lt room
  refine ⟨state.name ++ (if state.name = [] then [] else [46]) ++
    bytesAt memory (state.offset + 1) label, ?_, ?_⟩
  · by_cases empty : state.name = []
    · simp [empty, bytesAt]
    · simp [empty, bytesAt, Nat.add_comm, Nat.add_left_comm]
  · simp only [nameTurn, if_pos inside, here, if_neg notEnd, noPointer,
      if_neg Bool.false_ne_true, if_neg fits]

/-- At any place the name ends, has a pointer, or has a label for which there is room. -/
theorem name_cases (memory : Nat → UInt8) (len offset length : Nat) :
    (∃ behind, NameStops memory len offset length behind) ∨
    (∃ target, PointsTo memory len offset target) ∨
    (offset < len ∧ (memory offset).toNat ≠ 0 ∧ isPointer (memory offset).toNat = false ∧
      length + (memory offset).toNat + 1 < maxLen) := by
  by_cases inside : offset < len
  · by_cases zero : (memory offset).toNat = 0
    · exact Or.inl ⟨_, .zero inside zero⟩
    · cases pointer : isPointer (memory offset).toNat with
      | true => exact Or.inr (Or.inl ⟨_, inside, pointer, rfl⟩)
      | false =>
          by_cases room : length + (memory offset).toNat + 1 < maxLen
          · exact Or.inr (Or.inr ⟨inside, zero, rfl, room⟩)
          · exact Or.inl ⟨_, .tooLong inside zero pointer room⟩
  · exact Or.inl ⟨_, .outside inside⟩

/-! ## Which names are read -/

/-- The loop comes to every place of the name. -/
theorem NamePlace.reached {start offset length : Nat} {jump : Option Nat}
    (place : NamePlace memory len start offset length jump) :
    ∃ state : NameState, state.offset = offset ∧ state.name.length = length ∧
      state.jumpOffset = jump ∧ Reaches (nameTurn memory len) ⟨start, [], none⟩ state := by
  induction place with
  | start => exact ⟨⟨start, [], none⟩, rfl, rfl, rfl, .refl⟩
  | label place inside here notEnd noPointer room ih =>
      obtain ⟨state, rfl, rfl, rfl, reaches⟩ := ih
      obtain ⟨name, grown, again⟩ := nameTurn_label inside here notEnd noPointer room
      exact ⟨⟨_, name, state.jumpOffset⟩, rfl, grown, rfl, reaches.tail again⟩
  | pointer place points ih =>
      obtain ⟨state, rfl, rfl, rfl, reaches⟩ := ih
      exact ⟨⟨_, state.name, _⟩, rfl, rfl, rfl, reaches.tail (nameTurn_pointer points)⟩

/-- The loop comes only to places of the name. -/
theorem namePlace_of_reaches {start : Nat} {state : NameState}
    (reaches : Reaches (nameTurn memory len) ⟨start, [], none⟩ state) :
    NamePlace memory len start state.offset state.name.length state.jumpOffset := by
  induction reaches with
  | refl => exact .start
  | @tail before after _ step place =>
      rcases name_cases memory len before.offset before.name.length with
        ⟨behind, stops⟩ | ⟨target, points⟩ | ⟨inside, notEnd, noPointer, room⟩
      · rw [GoesOn, nameTurn_stops stops] at step
        cases step
      · rw [GoesOn, nameTurn_pointer points] at step
        obtain rfl := Turn.again.inj step
        exact .pointer place points
      · obtain ⟨name, grown, again⟩ := nameTurn_label inside rfl notEnd noPointer room
        rw [GoesOn, again] at step
        obtain rfl := Turn.again.inj step
        have next := NamePlace.label place inside rfl notEnd noPointer room
        rw [← grown] at next
        exact next

/-- A cycle of pointers is not left. -/
theorem pointerCycle_not_halts {state : NameState}
    (cycle : PointerCycle memory len state.offset) : ¬ Halts (nameTurn memory len) state := by
  refine @not_halts_of_closed _ _ _ (fun state => PointerCycle memory len state.offset) ?_ state
    cycle
  intro state cycle
  obtain ⟨target, points, back⟩ := Relation.TransGen.head'_iff.mp cycle
  exact ⟨_, nameTurn_pointer points, Relation.TransGen.tail' back points⟩

/-- Pointers alone lead only to places of the name. -/
theorem NamePlace.pointers {start offset length later : Nat} {jump : Option Nat}
    (place : NamePlace memory len start offset length jump)
    (reaches : Reaches (pointerTurn memory len) offset later) :
    ∃ jump', NamePlace memory len start later length jump' := by
  induction reaches with
  | refl => exact ⟨jump, place⟩
  | tail _ step ih =>
      obtain ⟨jump', place'⟩ := ih
      exact ⟨_, .pointer place' (goesOn_pointerTurn.mp step)⟩

/-- The state is at a place of the name from the start. -/
def AtPlace (memory : Nat → UInt8) (len start : Nat) (state : NameState) : Prop :=
  NamePlace memory len start state.offset state.name.length state.jumpOffset

/-- Between two labels the loop follows pointers, which end. -/
theorem Resolves.halts_step {start length : Nat} (resolves : Resolves memory len start)
    (longer : ∀ state, AtPlace memory len start state → length < state.name.length →
      state.name.length < maxLen → Halts (nameTurn memory len) state)
    {state : NameState} (here : AtPlace memory len start state)
    (same : state.name.length = length) : Halts (nameTurn memory len) state := by
  have ends : Halts (pointerTurn memory len) state.offset := by
    rw [halts_iff_acyclic (reaches_pointerTurn_finite state.offset)]
    intro later reaches
    rw [onCycle_pointerTurn]
    obtain ⟨jump, place⟩ := here.pointers reaches
    exact resolves later _ jump place
  refine Halts.induct (motive := fun offset => ∀ state : NameState, state.offset = offset →
    AtPlace memory len start state → state.name.length = length →
      Halts (nameTurn memory len) state) ?_ ?_ ends state rfl here same
  · rintro offset result leaves state rfl here rfl
    rcases name_cases memory len state.offset state.name.length with
      ⟨behind, stops⟩ | ⟨target, points⟩ | ⟨inside, notEnd, noPointer, room⟩
    · exact halts_of_leave (nameTurn_stops stops)
    · rw [goesOn_pointerTurn.mpr points] at leaves
      cases leaves
    · obtain ⟨name, grown, again⟩ := nameTurn_label inside rfl notEnd noPointer room
      have next := NamePlace.label here inside rfl notEnd noPointer room
      rw [← grown] at next
      rw [halts_again_iff again]
      apply longer ⟨_, name, state.jumpOffset⟩ next
      · show state.name.length < name.length
        omega
      · show name.length < maxLen
        rw [grown]
        split
        · omega
        · omega
  · rintro offset target step ih state rfl here rfl
    have points := goesOn_pointerTurn.mp step
    rw [halts_again_iff (nameTurn_pointer points)]
    exact ih _ rfl (.pointer here points) rfl

/-- Each label takes some of the room for the name. -/
theorem Resolves.halts {start : Nat} (resolves : Resolves memory len start) (room : Nat) :
    ∀ state, AtPlace memory len start state → maxLen - state.name.length ≤ room →
      Halts (nameTurn memory len) state := by
  induction room with
  | zero =>
      intro state here noRoom
      refine resolves.halts_step ?_ here rfl
      intro next _ longer short
      omega
  | succ room ih =>
      intro state here enough
      refine resolves.halts_step ?_ here rfl
      intro next there longer short
      exact ih next there (by omega)

/-- A name is read unless it comes to a cycle of pointers. -/
theorem halts_iff_resolves (start : Nat) :
    Halts (nameTurn memory len) ⟨start, [], none⟩ ↔ Resolves memory len start := by
  constructor
  · intro halts offset length jump place cycle
    obtain ⟨state, rfl, -, -, reaches⟩ := place.reached
    exact pointerCycle_not_halts cycle (halts.reaches reaches)
  · intro resolves
    exact resolves.halts maxLen _ .start (Nat.sub_le _ _)

theorem extractDnsName_isSome (fuel start : Nat) :
    (extractDnsName memory len fuel start).isSome =
      (runLoop (nameTurn memory len) fuel ⟨start, [], none⟩).isSome := Option.isSome_map

/-- `extract_dns_name` returns unless the name comes to a cycle of pointers. -/
theorem extractDnsName_returns (start : Nat) :
    (∃ fuel result, extractDnsName memory len fuel start = some result) ↔
      Resolves memory len start := by
  rw [← halts_iff_resolves]
  simp only [Halts, ← extractDnsName_isSome, Option.isSome_iff_exists]

theorem extractDnsName_more {fuel start : Nat} {result : Option (List UInt8) × Nat}
    (read : extractDnsName memory len fuel start = some result) (more : Nat) :
    extractDnsName memory len (fuel + more) start = some result := by
  obtain ⟨state, done, same⟩ := Option.map_eq_some_iff.mp read
  rw [extractDnsName, runLoop_more done, Option.map_some, same]

theorem extractDnsName_unique {fuel fuel' start : Nat}
    {result result' : Option (List UInt8) × Nat}
    (read : extractDnsName memory len fuel start = some result)
    (read' : extractDnsName memory len fuel' start = some result') : result = result' := by
  have first := extractDnsName_more read fuel'
  have second := extractDnsName_more read' fuel
  rw [Nat.add_comm, second] at first
  exact (Option.some.inj first).symm

/-- What is read at a start is the name that ends there, and `NULL` for a name without labels. -/
theorem extractDnsName_ends {fuel start after : Nat} {name : Option (List UInt8)}
    (read : extractDnsName memory len fuel start = some (name, after)) :
    ∃ length, NameEnds memory len start length after ∧ (name = none ↔ length = 0) := by
  obtain ⟨final, done, same⟩ := Option.map_eq_some_iff.mp read
  obtain ⟨last, reaches, leaves⟩ := runLoop_iff_reaches.mp ⟨fuel, done⟩
  have place := namePlace_of_reaches reaches
  rcases name_cases memory len last.offset last.name.length with
    ⟨behind, stops⟩ | ⟨target, points⟩ | ⟨inside, notEnd, noPointer, room⟩
  · rw [nameTurn_stops stops] at leaves
    obtain rfl := Turn.leave.inj leaves
    obtain ⟨rfl, rfl⟩ := Prod.mk.inj same
    refine ⟨last.name.length, ⟨_, behind, _, place, stops, rfl⟩, ?_⟩
    rw [List.length_eq_zero_iff]
    by_cases empty : last.name = []
    · simp [empty]
    · simp [empty]
  · rw [nameTurn_pointer points] at leaves
    cases leaves
  · obtain ⟨text, -, again⟩ := nameTurn_label inside rfl notEnd noPointer room
    rw [again] at leaves
    cases leaves

/-- A name that ends is read, with what `extractDnsName_ends` says about it. -/
theorem NameEnds.read {start length after : Nat} (ends : NameEnds memory len start length after) :
    ∃ fuel name, extractDnsName memory len fuel start = some (name, after) ∧
      (name = none ↔ length = 0) := by
  obtain ⟨offset, behind, jump, place, stops, rfl⟩ := ends
  obtain ⟨state, rfl, rfl, rfl, reaches⟩ := place.reached
  obtain ⟨fuel, done⟩ := runLoop_iff_reaches.mpr ⟨state, reaches, nameTurn_stops stops⟩
  refine ⟨fuel, _, by rw [extractDnsName, done]; rfl, ?_⟩
  rw [List.length_eq_zero_iff]
  by_cases empty : state.name = []
  · simp [empty]
  · simp [empty]

/-- A name that is read ends as the walk over the message does. -/
theorem NameEnds.unique {fuel start length after after' : Nat} {name : Option (List UInt8)}
    (ends : NameEnds memory len start length after)
    (read : extractDnsName memory len fuel start = some (name, after')) :
    after' = after ∧ (name = none ↔ length = 0) := by
  obtain ⟨fuel', name', read', empty⟩ := ends.read
  obtain ⟨rfl, rfl⟩ := Prod.mk.inj (extractDnsName_unique read read')
  exact ⟨rfl, empty⟩

end Names

end Dns

end Nblex
