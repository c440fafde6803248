import Nblex.Parsers.Proofs.DnsNames

/-!
# Which DNS messages the dissector finishes

The sections are read one after the other, and in each the entries as far as there are names. The
dissector comes back from a message exactly if each name it starts in this way comes to no cycle
of pointers.
-/

namespace Nblex

namespace Dns

/-- The sections of a message, in their order. -/
inductive Section where
  | questions | answers | authorities | additionals
  deriving DecidableEq

/-- The sections behind a section. -/
def Section.later : Section → List Section
  | .questions => [.answers, .authorities, .additionals]
  | .answers => [.authorities, .additionals]
  | .authorities => [.additionals]
  | .additionals => []

/-- The size of what follows the name of an entry. -/
def Section.size : Section → Nat
  | .questions => questionSize
  | _ => rrSize

section Message

variable (memory : Nat → UInt8) (len : Nat)

/-- The entries that the header announces. -/
def Section.count : Section → Nat
  | .questions => qdcount memory
  | .answers => ancount memory
  | .authorities => nscount memory
  | .additionals => arcount memory

/-- Behind an entry whose name ends at the offset. -/
def Section.entryEnd (sec : Section) (offset : Nat) : Nat :=
  match sec with
  | .questions => offset + questionSize
  | _ => offset + rrSize + u16At memory (offset + 8)

/-- With so many entries of the section left, the dissector comes to the offset. An empty name
    ends its section. -/
inductive Visits : Section → Nat → Nat → Prop where
  | first : headerSize ≤ len → Visits .questions (qdcount memory) headerSize
  | entry {sec : Section} {count offset length after : Nat} :
      Visits sec (count + 1) offset → offset < len - sec.size →
      NameEnds memory len offset length after → length ≠ 0 →
      Visits sec count (sec.entryEnd memory after)
  | done {sec next : Section} {rest : List Section} {count offset : Nat} :
      Visits sec count offset → (count = 0 ∨ ¬ offset < len - sec.size) →
      sec.later = next :: rest → Visits next (next.count memory) offset
  | nameless {sec next : Section} {rest : List Section} {count offset after : Nat} :
      Visits sec (count + 1) offset → offset < len - sec.size →
      NameEnds memory len offset 0 after → sec.later = next :: rest →
      Visits next (next.count memory) after

/-- The data of the entry is a name inside the message. -/
def ReadsTarget (sec : Section) (after : Nat) : Prop :=
  sec ≠ .questions ∧ hasTarget (u16At memory after) = true ∧
    after + rrSize + u16At memory (after + 8) ≤ len

/-- A name starts at the offset: the owner of an entry, or a name in the data of a record. -/
inductive StartsName : Nat → Prop where
  | owner {sec : Section} {count offset : Nat} :
      Visits memory len sec (count + 1) offset → offset < len - sec.size → StartsName offset
  | target {sec : Section} {count offset length after : Nat} :
      Visits memory len sec (count + 1) offset → offset < len - sec.size →
      NameEnds memory len offset length after → length ≠ 0 →
      ReadsTarget memory len sec after → StartsName (after + rrSize)

variable {memory len}

theorem Visits.complete {sec : Section} {count offset : Nat}
    (visits : Visits memory len sec count offset) : headerSize ≤ len := by
  induction visits with
  | first complete => exact complete
  | entry _ _ _ _ ih => exact ih
  | done _ _ _ ih => exact ih
  | nameless _ _ _ _ ih => exact ih

theorem StartsName.complete {start : Nat} (starts : StartsName memory len start) :
    headerSize ≤ len := by
  cases starts with
  | owner visits _ => exact visits.complete
  | target visits _ _ _ _ => exact visits.complete

theorem Section.later_next {sec next : Section} {rest : List Section}
    (later : sec.later = next :: rest) : next.later = rest := by
  cases sec with
  | questions =>
      cases later
      rfl
  | answers =>
      cases later
      rfl
  | authorities =>
      cases later
      rfl
  | additionals => cases later

/-! ## Entries -/

/-- What the loop over the entries does first. -/
theorem parseEntries_iff {fuel size count offset : Nat}
    {entry : List UInt8 → Nat → Option (Json × Nat)} {result : Option (List Json)} {after : Nat} :
    parseEntries memory len fuel size entry (count + 1) offset = some (result, after) ↔
      (¬ offset < len - size ∧ result = some [] ∧ after = offset) ∨
      (offset < len - size ∧ extractDnsName memory len fuel offset = some (none, after) ∧
        result = none) ∨
      (offset < len - size ∧ ∃ name behind json next entries,
        extractDnsName memory len fuel offset = some (some name, behind) ∧
        entry name behind = some (json, next) ∧
        parseEntries memory len fuel size entry count next = some (entries, after) ∧
        result = entries.map fun rest => json :: rest) := by
  rw [parseEntries]
  by_cases guard : offset < len - size
  · rw [if_pos guard]
    cases read : extractDnsName memory len fuel offset with
    | none => simp [guard]
    | some pair =>
        obtain ⟨name, behind⟩ := pair
        cases name with
        | none => simp [guard, eq_comm, and_comm]
        | some name =>
            cases readEntry : entry name behind with
            | none => simp [guard, readEntry]
            | some pair =>
                obtain ⟨json, next⟩ := pair
                cases rest : parseEntries memory len fuel size entry count next with
                | none => simp [guard, readEntry, rest]
                | some pair =>
                    obtain ⟨entries, last⟩ := pair
                    simp [guard, readEntry, rest, eq_comm, and_comm]
  · rw [if_neg guard]
    simp [guard, eq_comm]

theorem hasTarget_other {type : Nat} (target : hasTarget type = true) : type ≠ 1 ∧ type ≠ 28 := by
  constructor
  · rintro rfl
    cases target
  · rintro rfl
    cases target

theorem addSection_iff (parse : Nat → Nat → Option (Option (List Json) × Nat))
    (empty : ∀ offset, parse 0 offset = some (some [], offset)) (key : String) (count : Nat)
    (dns : Json) (offset after : Nat) :
    (∃ dns', addSection parse key count dns offset = some (dns', after)) ↔
      ∃ result, parse count offset = some (result, after) := by
  unfold addSection
  cases count with
  | zero =>
      rw [if_neg (Nat.lt_irrefl 0), empty]
      constructor
      · rintro ⟨dns', same⟩
        exact ⟨some [], by rw [(Prod.mk.inj (Option.some.inj same)).2]⟩
      · rintro ⟨result, same⟩
        exact ⟨dns, by rw [(Prod.mk.inj (Option.some.inj same)).2]⟩
  | succ count =>
      rw [if_pos (Nat.succ_pos count)]
      cases parsed : parse (count + 1) offset with
      | none => simp
      | some pair =>
          obtain ⟨entries, last⟩ := pair
          simp

variable [Jansson] [Inet]

/-- What is read behind the name of an entry. -/
def Section.entry (memory : Nat → UInt8) (len fuel : Nat) (sec : Section) :
    List UInt8 → Nat → Option (Json × Nat) :=
  match sec with
  | .questions => readQuestion memory
  | _ => readRecord memory len fuel

/-- The entries of a section. -/
def parseSection (memory : Nat → UInt8) (len fuel : Nat) (sec : Section) (count offset : Nat) :
    Option (Option (List Json) × Nat) :=
  parseEntries memory len fuel sec.size (sec.entry memory len fuel) count offset

theorem readRdata_target {fuel type rdlength offset : Nat} (record : Json)
    (target : hasTarget type = true) (inside : offset + rdlength ≤ len) :
    (readRdata memory len fuel type rdlength offset record).isSome =
      (extractDnsName memory len fuel offset).isSome := by
  obtain ⟨noA, noAaaa⟩ := hasTarget_other target
  rw [readRdata, if_pos inside, if_neg noA, if_neg noAaaa, if_pos target]
  cases extractDnsName memory len fuel offset with
  | none => rfl
  | some pair =>
      obtain ⟨name, behind⟩ := pair
      cases name with
      | none => rfl
      | some name => rfl

theorem readRdata_other {fuel type rdlength offset : Nat} (record : Json)
    (other : ¬(hasTarget type = true ∧ offset + rdlength ≤ len)) :
    (readRdata memory len fuel type rdlength offset record).isSome = true := by
  unfold readRdata
  split
  · next inside =>
    split
    · rfl
    · split
      · rfl
      · split
        · next target => exact absurd ⟨target, inside⟩ other
        · rfl
  · rfl

/-- An entry is read unless its data is a name that is not. -/
theorem Section.entry_isSome (sec : Section) (fuel : Nat) (name : List UInt8) (after : Nat) :
    (sec.entry memory len fuel name after).isSome = true ↔
      (ReadsTarget memory len sec after →
        (extractDnsName memory len fuel (after + rrSize)).isSome = true) := by
  have record : (readRecord memory len fuel name after).isSome = true ↔
      (hasTarget (u16At memory after) = true ∧
        after + rrSize + u16At memory (after + 8) ≤ len →
          (extractDnsName memory len fuel (after + rrSize)).isSome = true) := by
    rw [readRecord, Option.isSome_map]
    by_cases target : hasTarget (u16At memory after) = true ∧
        after + rrSize + u16At memory (after + 8) ≤ len
    · rw [readRdata_target _ target.1 target.2]
      exact ⟨fun read _ => read, fun read => read target⟩
    · rw [readRdata_other _ target]
      exact ⟨fun _ here => absurd here target, fun _ => rfl⟩
  have inRecords : sec ≠ .questions → (ReadsTarget memory len sec after ↔
      hasTarget (u16At memory after) = true ∧
        after + rrSize + u16At memory (after + 8) ≤ len) :=
    fun notQuestions => and_iff_right notQuestions
  cases sec with
  | questions => exact ⟨fun _ target => absurd rfl target.1, fun _ => rfl⟩
  | answers | authorities | additionals =>
      rw [inRecords (by decide)]
      exact record

theorem Section.entry_next {sec : Section} {fuel after next : Nat} {name : List UInt8}
    {json : Json} (read : sec.entry memory len fuel name after = some (json, next)) :
    next = sec.entryEnd memory after := by
  have record : ∀ {json next}, readRecord memory len fuel name after = some (json, next) →
      next = after + rrSize + u16At memory (after + 8) := by
    intro json next read
    obtain ⟨json', -, same⟩ := Option.map_eq_some_iff.mp read
    exact (Prod.mk.inj same).2.symm
  cases sec with
  | questions => exact (Prod.mk.inj (Option.some.inj read)).2.symm
  | answers => exact record read
  | authorities => exact record read
  | additionals => exact record read

/-- An entry is read if the name in its data is, and the next one starts behind it. -/
theorem Section.entry_reads {sec : Section} {after : Nat} (name : List UInt8)
    (target : ReadsTarget memory len sec after →
      ∃ fuel result, extractDnsName memory len fuel (after + rrSize) = some result) :
    ∃ fuel json, sec.entry memory len fuel name after = some (json, sec.entryEnd memory after) := by
  have entry : ∃ fuel, (sec.entry memory len fuel name after).isSome = true := by
    by_cases here : ReadsTarget memory len sec after
    · obtain ⟨fuel, result, returned⟩ := target here
      refine ⟨fuel, (Section.entry_isSome sec fuel name after).mpr fun _ => ?_⟩
      rw [returned]
      rfl
    · exact ⟨0, (Section.entry_isSome sec 0 name after).mpr fun target => absurd target here⟩
  obtain ⟨fuel, read⟩ := entry
  obtain ⟨⟨json, next⟩, read⟩ := Option.isSome_iff_exists.mp read
  have shape := Section.entry_next read
  subst shape
  exact ⟨fuel, json, read⟩

/-! ## Messages that come back -/

/-- These sections are read one after the other. -/
def SectionsReturn (memory : Nat → UInt8) (len fuel : Nat) : List Section → Nat → Prop
  | [], _ => True
  | sec :: rest, offset =>
      ∃ result after,
        parseSection memory len fuel sec (sec.count memory) offset = some (result, after) ∧
          SectionsReturn memory len fuel rest after

/-- The rest of the message is read from a place in a section. -/
def RestReturns (memory : Nat → UInt8) (len fuel : Nat) (sec : Section) (count offset : Nat) :
    Prop :=
  ∃ result after, parseSection memory len fuel sec count offset = some (result, after) ∧
    SectionsReturn memory len fuel sec.later after

theorem RestReturns.next {fuel : Nat} {sec next : Section} {rest : List Section}
    {after : Nat} (later : sec.later = next :: rest)
    (returns : SectionsReturn memory len fuel sec.later after) :
    RestReturns memory len fuel next (next.count memory) after := by
  rw [later] at returns
  obtain ⟨result, last, parsed, rests⟩ := returns
  refine ⟨result, last, parsed, ?_⟩
  rw [Section.later_next later]
  exact rests

/-- An entry of a message that comes back has its name read, and if the name is not empty its
    data and the entries behind it. -/
theorem RestReturns.entry {fuel : Nat} {sec : Section} {count offset : Nat}
    (returns : RestReturns memory len fuel sec (count + 1) offset)
    (guard : offset < len - sec.size) :
    ∃ name after, extractDnsName memory len fuel offset = some (name, after) ∧
      (name = none → SectionsReturn memory len fuel sec.later after) ∧
      ∀ text, name = some text →
        (sec.entry memory len fuel text after).isSome = true ∧
          RestReturns memory len fuel sec count (sec.entryEnd memory after) := by
  obtain ⟨result, last, parsed, rests⟩ := returns
  rcases parseEntries_iff.mp parsed with ⟨outside, -, -⟩ | ⟨-, read, -⟩ |
    ⟨-, name, behind, json, next, entries, read, readEntry, parsedRest, -⟩
  · exact absurd guard outside
  · refine ⟨none, last, read, fun _ => rests, ?_⟩
    rintro text ⟨⟩
  · refine ⟨some name, behind, read, ?_, ?_⟩
    · rintro ⟨⟩
    · rintro text ⟨⟩
      refine ⟨by rw [readEntry]; rfl, entries, last, ?_, rests⟩
      rw [← Section.entry_next readEntry]
      exact parsedRest

/-- Where no entry follows the offset stays. -/
theorem RestReturns.done {fuel : Nat} {sec : Section} {count offset : Nat}
    (returns : RestReturns memory len fuel sec count offset)
    (noEntry : count = 0 ∨ ¬ offset < len - sec.size) :
    SectionsReturn memory len fuel sec.later offset := by
  obtain ⟨result, last, parsed, rests⟩ := returns
  have stays : last = offset := by
    cases count with
    | zero => exact (Prod.mk.inj (Option.some.inj parsed)).2.symm
    | succ count =>
        have outside : ¬ offset < len - sec.size :=
          noEntry.resolve_left (Nat.succ_ne_zero count)
        rcases parseEntries_iff.mp parsed with ⟨-, -, same⟩ | ⟨guard, -, -⟩ | ⟨guard, -⟩
        · exact same
        · exact absurd guard outside
        · exact absurd guard outside
  rw [← stays]
  exact rests

/-- A message that comes back is read from every place the dissector comes to. -/
theorem Visits.returns {fuel : Nat}
    (returns : SectionsReturn memory len fuel
      [.questions, .answers, .authorities, .additionals] headerSize)
    {sec : Section} {count offset : Nat} (visits : Visits memory len sec count offset) :
    RestReturns memory len fuel sec count offset := by
  induction visits with
  | first _ => exact returns
  | entry visits guard ends notEmpty ih =>
      obtain ⟨name, after, read, -, more⟩ := ih.entry guard
      obtain ⟨rfl, empty⟩ := ends.unique read
      cases name with
      | none => exact absurd (empty.mp rfl) notEmpty
      | some text => exact (more text rfl).2
  | done visits noEntry later ih => exact RestReturns.next later (ih.done noEntry)
  | nameless visits guard ends later ih =>
      obtain ⟨name, after, read, stops, -⟩ := ih.entry guard
      obtain ⟨rfl, empty⟩ := ends.unique read
      exact RestReturns.next later (stops (empty.mpr rfl))

/-- A message that comes back has all its names read. -/
theorem StartsName.returns {fuel : Nat}
    (returns : SectionsReturn memory len fuel
      [.questions, .answers, .authorities, .additionals] headerSize)
    {start : Nat} (starts : StartsName memory len start) :
    ∃ result, extractDnsName memory len fuel start = some result := by
  cases starts with
  | owner visits guard =>
      obtain ⟨name, after, read, -⟩ := (visits.returns returns).entry guard
      exact ⟨_, read⟩
  | target visits guard ends notEmpty target =>
      obtain ⟨name, after, read, -, more⟩ := (visits.returns returns).entry guard
      obtain ⟨rfl, empty⟩ := ends.unique read
      cases name with
      | none => exact absurd (empty.mp rfl) notEmpty
      | some text =>
          have readEntry := (more text rfl).1
          rw [Section.entry_isSome] at readEntry
          exact Option.isSome_iff_exists.mp (readEntry target)

/-! ## Messages whose names are read -/

theorem readRdata_more {fuel type rdlength offset : Nat} {record json : Json}
    (read : readRdata memory len fuel type rdlength offset record = some json) (more : Nat) :
    readRdata memory len (fuel + more) type rdlength offset record = some json := by
  by_cases target : hasTarget type = true ∧ offset + rdlength ≤ len
  · obtain ⟨noA, noAaaa⟩ := hasTarget_other target.1
    have returned : (extractDnsName memory len fuel offset).isSome = true := by
      rw [← readRdata_target record target.1 target.2, read]
      rfl
    obtain ⟨name, named⟩ := Option.isSome_iff_exists.mp returned
    rw [readRdata, if_pos target.2, if_neg noA, if_neg noAaaa, if_pos target.1,
      extractDnsName_more named more]
    rw [readRdata, if_pos target.2, if_neg noA, if_neg noAaaa, if_pos target.1, named] at read
    exact read
  · rw [← read]
    unfold readRdata
    by_cases inside : offset + rdlength ≤ len
    · have noTarget : ¬ hasTarget type = true := fun here => target ⟨here, inside⟩
      rw [if_pos inside, if_pos inside, if_neg noTarget, if_neg noTarget]
    · rw [if_neg inside, if_neg inside]

theorem Section.entry_more {sec : Section} {fuel after : Nat} {name : List UInt8}
    {read : Json × Nat} (reads : sec.entry memory len fuel name after = some read) (more : Nat) :
    sec.entry memory len (fuel + more) name after = some read := by
  have record : readRecord memory len fuel name after = some read →
      readRecord memory len (fuel + more) name after = some read := by
    intro reads
    obtain ⟨json, data, same⟩ := Option.map_eq_some_iff.mp reads
    rw [readRecord, readRdata_more data more, Option.map_some, same]
  cases sec with
  | questions => exact reads
  | answers => exact record reads
  | authorities => exact record reads
  | additionals => exact record reads

theorem parseSection_more {sec : Section} {fuel count : Nat} (more : Nat) :
    ∀ {offset after : Nat} {result : Option (List Json)},
      parseSection memory len fuel sec count offset = some (result, after) →
        parseSection memory len (fuel + more) sec count offset = some (result, after) := by
  induction count with
  | zero =>
      intro offset after result parsed
      exact parsed
  | succ count ih =>
      intro offset after result parsed
      apply parseEntries_iff.mpr
      rcases parseEntries_iff.mp parsed with outside | ⟨guard, read, same⟩ |
        ⟨guard, name, behind, json, next, entries, read, readEntry, parsedRest, same⟩
      · exact Or.inl outside
      · exact Or.inr (Or.inl ⟨guard, extractDnsName_more read more, same⟩)
      · exact Or.inr (Or.inr ⟨guard, name, behind, json, next, entries,
          extractDnsName_more read more, Section.entry_more readEntry more, ih parsedRest, same⟩)

theorem SectionsReturn.more {fuel : Nat} {sections : List Section} (more : Nat) :
    ∀ {offset : Nat}, SectionsReturn memory len fuel sections offset →
      SectionsReturn memory len (fuel + more) sections offset := by
  induction sections with
  | nil =>
      intro offset returns
      exact returns
  | cons sec rest ih =>
      rintro offset ⟨result, after, parsed, returns⟩
      exact ⟨result, after, parseSection_more more parsed, ih returns⟩

/-- The entries of a section are read one by one, with as many turns as each of them takes. -/
theorem Visits.parses
    (resolve : ∀ start, StartsName memory len start → Resolves memory len start) {sec : Section}
    (count : Nat) : ∀ {offset : Nat}, Visits memory len sec count offset →
      ∃ fuel result after,
        parseSection memory len fuel sec count offset = some (result, after) ∧
          ∀ next rest, sec.later = next :: rest →
            Visits memory len next (next.count memory) after := by
  induction count with
  | zero =>
      intro offset visits
      exact ⟨0, some [], offset, rfl, fun next rest later => .done visits (Or.inl rfl) later⟩
  | succ count ih =>
      intro offset visits
      by_cases guard : offset < len - sec.size
      · obtain ⟨fuel, ⟨name, after⟩, read⟩ :=
          (extractDnsName_returns offset).mpr (resolve offset (.owner visits guard))
        obtain ⟨length, ends, empty⟩ := extractDnsName_ends read
        cases name with
        | none =>
            obtain rfl := empty.mp rfl
            refine ⟨fuel, none, after, ?_, ?_⟩
            · exact parseEntries_iff.mpr (Or.inr (Or.inl ⟨guard, read, rfl⟩))
            · exact fun next rest later => .nameless visits guard ends later
        | some name =>
            have notEmpty : length ≠ 0 := by
              intro zero
              cases empty.mpr zero
            obtain ⟨fuel', json, readEntry⟩ := Section.entry_reads name fun target =>
              (extractDnsName_returns _).mpr
                (resolve _ (.target visits guard ends notEmpty target))
            obtain ⟨fuel'', entries, last, parsedRest, later⟩ :=
              ih (.entry visits guard ends notEmpty)
            refine ⟨fuel + fuel' + fuel'', entries.map fun rest => json :: rest, last, ?_, later⟩
            apply parseEntries_iff.mpr
            refine Or.inr (Or.inr ⟨guard, name, after, json, sec.entryEnd memory after,
              entries, ?_, ?_, ?_, rfl⟩)
            · rw [Nat.add_assoc]
              exact extractDnsName_more read _
            · rw [Nat.add_comm fuel fuel', Nat.add_assoc]
              exact Section.entry_more readEntry _
            · rw [Nat.add_comm _ fuel'']
              exact parseSection_more _ parsedRest
      · refine ⟨0, some [], offset, ?_, fun next rest later =>
          .done visits (Or.inr guard) later⟩
        exact parseEntries_iff.mpr (Or.inl ⟨guard, rfl, rfl⟩)

theorem Visits.sectionsReturn
    (resolve : ∀ start, StartsName memory len start → Resolves memory len start)
    (sections : List Section) : ∀ {sec : Section} {offset : Nat}, sections = sec.later →
      Visits memory len sec (sec.count memory) offset →
        ∃ fuel, SectionsReturn memory len fuel (sec :: sections) offset := by
  induction sections with
  | nil =>
      intro sec offset _ visits
      obtain ⟨fuel, result, after, parsed, -⟩ := visits.parses resolve
      exact ⟨fuel, result, after, parsed, trivial⟩
  | cons next rest ih =>
      intro sec offset later visits
      obtain ⟨fuel, result, after, parsed, visitsNext⟩ := visits.parses resolve
      obtain ⟨fuel', returns⟩ := ih (Section.later_next later.symm).symm
        (visitsNext next rest later.symm)
      refine ⟨fuel + fuel', result, after, parseSection_more fuel' parsed, ?_⟩
      rw [Nat.add_comm]
      exact returns.more fuel

/-! ## The message -/

theorem payload_returns_iff (memory : Nat → UInt8) (len fuel : Nat) :
    (∃ result, nblexParseDnsPayload memory len fuel = some result) ↔
      (headerSize ≤ len → SectionsReturn memory len fuel
        [.questions, .answers, .authorities, .additionals] headerSize) := by
  have questions := addSection_iff (parseDnsQuestions memory len fuel) fun _ => rfl
  have records := addSection_iff (parseDnsRrs memory len fuel) fun _ => rfl
  unfold nblexParseDnsPayload
  by_cases short : len < headerSize
  · rw [if_pos short]
    exact ⟨fun _ complete => absurd short (Nat.not_lt_of_le complete), fun _ => ⟨none, rfl⟩⟩
  · rw [if_neg short]
    constructor
    · rintro ⟨result, returned⟩ -
      split at returned
      · cases returned
      · next dns₁ after₁ added₁ =>
        obtain ⟨result₁, parsed₁⟩ := (questions _ _ _ _ _).mp ⟨dns₁, added₁⟩
        split at returned
        · cases returned
        · next dns₂ after₂ added₂ =>
          obtain ⟨result₂, parsed₂⟩ := (records _ _ _ _ _).mp ⟨dns₂, added₂⟩
          split at returned
          · cases returned
          · next dns₃ after₃ added₃ =>
            obtain ⟨result₃, parsed₃⟩ := (records _ _ _ _ _).mp ⟨dns₃, added₃⟩
            obtain ⟨⟨dns₄, after₄⟩, added₄, -⟩ := Option.map_eq_some_iff.mp returned
            obtain ⟨result₄, parsed₄⟩ := (records _ _ _ _ _).mp ⟨dns₄, added₄⟩
            exact ⟨result₁, after₁, parsed₁, result₂, after₂, parsed₂, result₃, after₃, parsed₃,
              result₄, after₄, parsed₄, trivial⟩
    · intro returns
      obtain ⟨_, after₁, parsed₁, _, after₂, parsed₂, _, after₃, parsed₃, _, after₄, parsed₄, -⟩ :=
        returns (Nat.le_of_not_lt short)
      obtain ⟨dns₁, added₁⟩ := (questions "questions" _ (headerObject memory) _ after₁).mpr
        ⟨_, parsed₁⟩
      obtain ⟨dns₂, added₂⟩ := (records "answers" _ dns₁ _ after₂).mpr ⟨_, parsed₂⟩
      obtain ⟨dns₃, added₃⟩ := (records "authorities" _ dns₂ _ after₃).mpr ⟨_, parsed₃⟩
      obtain ⟨dns₄, added₄⟩ := (records "additionals" _ dns₃ _ after₄).mpr ⟨_, parsed₄⟩
      refine ⟨some dns₄, ?_⟩
      simp only [Section.count] at added₁ added₂ added₃ added₄
      simp only [added₁, added₂, added₃, added₄, Option.map_some]

end Message

/-- The dissector comes back from a message exactly if no name that it starts comes to a cycle of
    pointers, and `extract_dns_name` from an offset exactly if the name there does not. -/
theorem nblexParseDnsPayload_returns_iff [Jansson] [Inet] (memory : Nat → UInt8) (len : Nat) :
    ((∃ fuel result, nblexParseDnsPayload memory len fuel = some result) ↔
      ∀ start, StartsName memory len start → Resolves memory len start) ∧
    (∀ start, (∃ fuel result, extractDnsName memory len fuel start = some result) ↔
      Resolves memory len start) := by
  refine ⟨⟨?_, ?_⟩, extractDnsName_returns⟩
  · rintro ⟨fuel, returned⟩ start starts
    by_cases complete : headerSize ≤ len
    · have returns := (payload_returns_iff memory len fuel).mp returned complete
      obtain ⟨result, read⟩ := starts.returns returns
      exact (extractDnsName_returns start).mp ⟨fuel, result, read⟩
    · exact absurd starts.complete complete
  · intro resolve
    by_cases complete : headerSize ≤ len
    · obtain ⟨fuel, returns⟩ := Visits.sectionsReturn resolve _ rfl (.first complete)
      exact ⟨fuel, (payload_returns_iff memory len fuel).mpr fun _ => returns⟩
    · exact ⟨0, (payload_returns_iff memory len 0).mpr fun here => absurd here complete⟩

/-- A message with one question, whose name is a pointer to itself. -/
def selfPointer : List UInt8 := [0, 0, 0, 0, 0, 1, 0, 0, 0, 0, 0, 0, 0xC0, 12, 0, 1, 0, 1]

/-- The memory that holds nothing but the message. -/
def memoryOf (message : List UInt8) (offset : Nat) : UInt8 := message.getD offset 0

theorem selfPointer_hangs :
    ¬ ∃ fuel result, @nblexParseDnsPayload acceptingJansson ⟨fun _ => [], fun _ => []⟩
      (memoryOf selfPointer) selfPointer.length fuel = some result := by
  rintro ⟨fuel, returned⟩
  let _ := acceptingJansson
  let _ : Inet := ⟨fun _ => [], fun _ => []⟩
  have returns := (payload_returns_iff _ _ _).mp returned (by decide)
  have first : RestReturns (memoryOf selfPointer) selfPointer.length fuel .questions 1 headerSize :=
    returns
  obtain ⟨name, after, read, -⟩ := first.entry (by decide)
  have resolves : Resolves (memoryOf selfPointer) selfPointer.length headerSize :=
    (extractDnsName_returns headerSize).mp ⟨fuel, _, read⟩
  have points : PointsTo (memoryOf selfPointer) selfPointer.length headerSize headerSize :=
    ⟨by decide, by decide, by decide⟩
  exact resolves headerSize 0 none .start (.single points)

end Dns

end Nblex
