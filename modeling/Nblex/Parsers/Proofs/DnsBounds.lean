import Nblex.Parsers.DnsReads
import Nblex.Parsers.Proofs.DnsTermination

/-!
# Which DNS messages are read past their end

The header, the first byte of each label or pointer and the data of a record are read behind a
guard. The rest of a label, the second byte of a pointer and what follows the name of an entry are
not, so these must lie in the message, in each name and entry that the dissector comes to.
-/

namespace Nblex

namespace Dns

/-- What is read of an entry behind its name: of a record not the padding. -/
def Section.fixedSize : Section → Nat
  | .questions => 4
  | _ => 10

section Message

variable (memory : Nat → UInt8) (len : Nat)

/-- The pointer at a place of a name is whole, and so is a label for which there is room. -/
def PlaceWhole (offset length : Nat) : Prop :=
  offset < len →
    (isPointer (memory offset).toNat = true → offset + 1 < len) ∧
    (isPointer (memory offset).toNat = false → length + (memory offset).toNat + 1 < maxLen →
      offset + 1 + (memory offset).toNat ≤ len)

/-- The labels and pointers of the name from a start are whole. -/
def NameWhole (start : Nat) : Prop :=
  ∀ offset length jump, NamePlace memory len start offset length jump →
    PlaceWhole memory len offset length

/-- The entry at an offset is whole: its name, unless that is empty what follows it, and a name in
    its data. -/
def EntryWhole (sec : Section) (offset : Nat) : Prop :=
  NameWhole memory len offset ∧
    ∀ length after, NameEnds memory len offset length after → length ≠ 0 →
      after + sec.fixedSize ≤ len ∧
        (ReadsTarget memory len sec after → NameWhole memory len (after + rrSize))

/-- With so many entries of the section left, the dissector comes to the offset, while each name
    before it comes to an end. -/
inductive Comes : Section → Nat → Nat → Prop where
  | first : headerSize ≤ len → Comes .questions (qdcount memory) headerSize
  | entry {sec : Section} {count offset length after : Nat} :
      Comes sec (count + 1) offset → offset < len - sec.size →
      NameEnds memory len offset length after → length ≠ 0 →
      (ReadsTarget memory len sec after →
        ∃ length' after', NameEnds memory len (after + rrSize) length' after') →
      Comes sec count (sec.entryEnd memory after)
  | done {sec next : Section} {rest : List Section} {count offset : Nat} :
      Comes sec count offset → (count = 0 ∨ ¬ offset < len - sec.size) →
      sec.later = next :: rest → Comes next (next.count memory) offset
  | nameless {sec next : Section} {rest : List Section} {count offset after : Nat} :
      Comes sec (count + 1) offset → offset < len - sec.size →
      NameEnds memory len offset 0 after → sec.later = next :: rest →
      Comes next (next.count memory) after

variable {memory len}

theorem Comes.complete {sec : Section} {count offset : Nat}
    (comes : Comes memory len sec count offset) : headerSize ≤ len := by
  induction comes with
  | first complete => exact complete
  | entry _ _ _ _ _ ih => exact ih
  | done _ _ _ ih => exact ih
  | nameless _ _ _ _ ih => exact ih

/-! ## Names -/

theorem reading_all {α : Type} {offset count : Nat} {value : α} :
    (Reads.reading offset count value).All (· < len) ↔ (0 < count → offset + count ≤ len) := by
  constructor
  · intro all some
    have last : offset + (count - 1) < len :=
      all _ (List.mem_map.mpr ⟨count - 1, List.mem_range.mpr (by omega), rfl⟩)
    omega
  · rintro inside index read
    obtain ⟨i, below, rfl⟩ := List.mem_map.mp read
    have below : i < count := List.mem_range.mp below
    have inside := inside (by omega)
    show offset + i < len
    omega

theorem nameTurn_all (state : NameState) :
    (Reads.nameTurn memory len state).All (· < len) ↔
      PlaceWhole memory len state.offset state.name.length := by
  unfold Reads.nameTurn PlaceWhole
  simp only [Recorded.all_ite, Recorded.all_bind, Recorded.all_pure]
  simp only [Reads.byteAt, Reads.bytesAt, Reads.value_reading, reading_all]
  generalize (memory state.offset).toNat = length
  constructor
  · rintro ⟨turn, -⟩ inside
    obtain ⟨-, -, more⟩ := turn inside
    refine ⟨fun pointer => ?_, fun noPointer room => ?_⟩
    · exact ((more (isPointer_ne_zero pointer)).1 pointer).1 Nat.one_pos
    · by_cases zero : length = 0
      · omega
      · have label := ((more zero).2 (Bool.eq_false_iff.mp noPointer)).2 (Nat.not_le_of_lt room)
        exact label.1 (Nat.pos_of_ne_zero zero)
  · intro whole
    refine ⟨fun inside => ⟨fun _ => inside, fun _ => trivial, fun notEnd => ?_⟩, fun _ => trivial⟩
    obtain ⟨pointers, labels⟩ := whole inside
    refine ⟨fun pointer => ⟨fun _ => pointers pointer, trivial⟩, fun noPointer => ?_⟩
    refine ⟨fun _ => trivial, fun room => ⟨fun _ => ?_, trivial⟩⟩
    exact labels (Bool.eq_false_iff.mpr noPointer) (Nat.lt_of_not_le room)

/-- Every byte read for a name is in the message, just in case the name is whole. -/
theorem extractDnsName_all_iff (start : Nat) :
    (∀ fuel, (Reads.extractDnsName memory len fuel start).All (· < len)) ↔
      NameWhole memory len start := by
  have same : (fun state => (Reads.nameTurn memory len state).value) = nameTurn memory len :=
    funext Reads.value_nameTurn
  simp only [Reads.extractDnsName, Recorded.all_bind, Recorded.all_pure, and_true]
  rw [Recorded.loop_all_iff, same]
  constructor
  · intro all offset length jump place
    obtain ⟨state, rfl, rfl, -, reaches⟩ := place.reached
    exact (nameTurn_all state).mp (all state reaches)
  · intro whole state reaches
    exact (nameTurn_all state).mpr (whole _ _ _ (namePlace_of_reaches reaches))

theorem extractDnsName_all_of_more {fuel more start : Nat}
    (all : (Reads.extractDnsName memory len (fuel + more) start).All (· < len)) :
    (Reads.extractDnsName memory len fuel start).All (· < len) := by
  simp only [Reads.extractDnsName, Recorded.all_bind, Recorded.all_pure, and_true] at all ⊢
  exact Recorded.loop_all_of_more all

theorem extractDnsName_of_le {fuel fuel' start : Nat} {result : Option (List UInt8) × Nat}
    (enough : fuel ≤ fuel') (read : extractDnsName memory len fuel start = some result) :
    extractDnsName memory len fuel' start = some result := by
  rw [← Nat.add_sub_of_le enough]
  exact extractDnsName_more read _

theorem extractDnsName_all_of_le {fuel fuel' start : Nat} (enough : fuel ≤ fuel')
    (all : (Reads.extractDnsName memory len fuel' start).All (· < len)) :
    (Reads.extractDnsName memory len fuel start).All (· < len) := by
  rw [← Nat.add_sub_of_le enough] at all
  exact extractDnsName_all_of_more all

/-! ## Entries -/

variable [Jansson] [Inet]

/-- What is read behind the name of an entry. -/
def Section.readEntry (memory : Nat → UInt8) (len fuel : Nat) (sec : Section) :
    List UInt8 → Nat → Recorded Nat (Option (Json × Nat)) :=
  match sec with
  | .questions => Reads.readQuestion memory
  | _ => Reads.readRecord memory len fuel

/-- The entries of a section. -/
def readSection (memory : Nat → UInt8) (len fuel : Nat) (sec : Section) (count offset : Nat) :
    Recorded Nat (Option (Option (List Json) × Nat)) :=
  Reads.parseEntries memory len fuel sec.size (sec.readEntry memory len fuel) count offset

theorem Section.value_readEntry (sec : Section) (fuel : Nat) (name : List UInt8) (offset : Nat) :
    (sec.readEntry memory len fuel name offset).value = sec.entry memory len fuel name offset := by
  cases sec with
  | questions => rfl
  | answers | authorities | additionals => exact Reads.value_readRecord fuel name offset

theorem value_readSection (fuel : Nat) (sec : Section) (count offset : Nat) :
    (readSection memory len fuel sec count offset).value =
      parseSection memory len fuel sec count offset := by
  rw [readSection, Reads.value_parseEntries]
  simp only [Section.value_readEntry]
  rfl

/-- The data of a record is read behind a guard, and what is read of a name in it is what is read
    of the name. -/
theorem readRdata_all_iff (fuel type rdlength offset : Nat) (record : Json) :
    (Reads.readRdata memory len fuel type rdlength offset record).All (· < len) ↔
      (hasTarget type = true ∧ offset + rdlength ≤ len →
        (Reads.extractDnsName memory len fuel offset).All (· < len)) := by
  unfold Reads.readRdata
  simp only [Recorded.all_ite, Recorded.all_bind, Recorded.all_pure]
  simp only [Reads.bytesAt, reading_all, and_true, imp_true_iff]
  constructor
  · rintro inside ⟨target, fits⟩
    obtain ⟨noA, noAaaa⟩ := hasTarget_other target
    exact (((inside fits).2 noA).2 noAaaa target).1
  · intro target fits
    refine ⟨fun _ four _ => by omega, fun _ => ⟨fun _ sixteen _ => by omega, fun _ isName => ?_⟩⟩
    refine ⟨target ⟨isName, fits⟩, ?_⟩
    rcases (Reads.extractDnsName memory len fuel offset).value with _ | ⟨_ | name, behind⟩
    · exact Recorded.all_pure _
    · exact Recorded.all_pure _
    · exact Recorded.all_pure _

/-- Ten bytes of a record are read behind its name. -/
theorem readRecord_all_iff (fuel : Nat) (name : List UInt8) (after : Nat) :
    (Reads.readRecord memory len fuel name after).All (· < len) ↔
      after + 10 ≤ len ∧
        (hasTarget (u16At memory after) = true ∧
            after + rrSize + u16At memory (after + 8) ≤ len →
          (Reads.extractDnsName memory len fuel (after + rrSize)).All (· < len)) := by
  simp only [Reads.readRecord, Reads.recordObject, Recorded.all_bind, Recorded.all_pure,
    Reads.u16At,
    Reads.u32At, Reads.value_reading, reading_all, readRdata_all_iff, and_true]
  constructor
  · rintro ⟨⟨-, -, -, last⟩, -, -, data⟩
    exact ⟨last (by decide), data⟩
  · rintro ⟨inside, data⟩
    exact ⟨⟨by omega, by omega, by omega, by omega⟩, by omega, by omega, data⟩

theorem Section.readEntry_all_iff (sec : Section) (fuel : Nat) (name : List UInt8) (after : Nat) :
    (sec.readEntry memory len fuel name after).All (· < len) ↔
      after + sec.fixedSize ≤ len ∧
        (ReadsTarget memory len sec after →
          (Reads.extractDnsName memory len fuel (after + rrSize)).All (· < len)) := by
  cases sec with
  | questions =>
      simp only [Section.readEntry, Reads.readQuestion, Recorded.all_bind, Recorded.all_pure,
        Reads.u16At, reading_all, and_true]
      constructor
      · rintro ⟨-, second⟩
        exact ⟨second (by decide), fun target => absurd rfl target.1⟩
      · rintro ⟨inside, -⟩
        have inside : after + 4 ≤ len := inside
        exact ⟨by omega, by omega⟩
  | answers | authorities | additionals =>
      refine (readRecord_all_iff fuel name after).trans (and_congr_right fun _ => ?_)
      exact imp_congr_left (and_iff_right (by decide)).symm

/-- What the loop over the entries reads first. -/
theorem readSection_all_succ (fuel : Nat) (sec : Section) (count offset : Nat) :
    (readSection memory len fuel sec (count + 1) offset).All (· < len) ↔
      (offset < len - sec.size →
        (Reads.extractDnsName memory len fuel offset).All (· < len) ∧
          ∀ name after, extractDnsName memory len fuel offset = some (some name, after) →
            (sec.readEntry memory len fuel name after).All (· < len) ∧
              ∀ json next, sec.entry memory len fuel name after = some (json, next) →
                (readSection memory len fuel sec count next).All (· < len)) := by
  rw [readSection, Reads.parseEntries, Recorded.all_ite]
  refine (and_iff_left fun _ => Recorded.all_pure _).trans (imp_congr_right fun _ => ?_)
  rw [Recorded.all_bind, Reads.value_extractDnsName]
  refine and_congr_right fun _ => ?_
  cases extractDnsName memory len fuel offset with
  | none =>
      refine ⟨fun _ name after same => ?_, fun _ => Recorded.all_pure _⟩
      cases same
  | some read =>
      obtain ⟨_ | name, after⟩ := read
      · refine ⟨fun _ name after same => ?_, fun _ => Recorded.all_pure _⟩
        cases same
      · show Recorded.All _ (sec.readEntry memory len fuel name after >>= _) ↔ _
        rw [Recorded.all_bind, Section.value_readEntry]
        constructor
        · rintro ⟨entry, rest⟩ text behind same
          cases same
          refine ⟨entry, fun json next read => ?_⟩
          rw [read] at rest
          exact ((Recorded.all_bind _ _).mp rest).1
        · intro all
          obtain ⟨entry, rest⟩ := all name after rfl
          refine ⟨entry, ?_⟩
          cases read : sec.entry memory len fuel name after with
          | none => exact Recorded.all_pure _
          | some pair =>
              refine (Recorded.all_bind _ _).mpr ⟨rest pair.1 pair.2 read, ?_⟩
              rcases (Reads.parseEntries memory len fuel sec.size
                (sec.readEntry memory len fuel) count pair.2).value with _ | entries
              · exact Recorded.all_pure _
              · exact Recorded.all_pure _

theorem readSection_all_zero (fuel : Nat) (sec : Section) (offset : Nat) :
    (readSection memory len fuel sec 0 offset).All (· < len) := Recorded.all_pure _

/-! ## The rest of a message -/

/-- What is read of these sections, one after the other, is in the message. -/
def SectionsInside (memory : Nat → UInt8) (len fuel : Nat) : List Section → Nat → Prop
  | [], _ => True
  | sec :: rest, offset =>
      (readSection memory len fuel sec (sec.count memory) offset).All (· < len) ∧
        ∀ result after,
          parseSection memory len fuel sec (sec.count memory) offset = some (result, after) →
            SectionsInside memory len fuel rest after

/-- What is read from a place in a section on is in the message. -/
def RestInside (memory : Nat → UInt8) (len fuel : Nat) (sec : Section) (count offset : Nat) :
    Prop :=
  (readSection memory len fuel sec count offset).All (· < len) ∧
    ∀ result after, parseSection memory len fuel sec count offset = some (result, after) →
      SectionsInside memory len fuel sec.later after

theorem sectionsInside_later {fuel : Nat} {sec next : Section} {rest : List Section}
    (later : sec.later = next :: rest) (offset : Nat) :
    SectionsInside memory len fuel sec.later offset ↔
      RestInside memory len fuel next (next.count memory) offset := by
  rw [later, SectionsInside, RestInside, Section.later_next later]

/-- Where no entry follows. -/
theorem RestInside.done_iff {fuel : Nat} {sec : Section} {count offset : Nat}
    (noEntry : count = 0 ∨ ¬ offset < len - sec.size) :
    RestInside memory len fuel sec count offset ↔
      SectionsInside memory len fuel sec.later offset := by
  cases count with
  | zero =>
      constructor
      · rintro ⟨-, rest⟩
        exact rest _ _ rfl
      · intro inside
        refine ⟨readSection_all_zero fuel sec offset, fun result after parsed => ?_⟩
        cases parsed
        exact inside
  | succ count =>
      have outside : ¬ offset < len - sec.size := noEntry.resolve_left (Nat.succ_ne_zero count)
      constructor
      · rintro ⟨-, rest⟩
        exact rest _ _ (parseEntries_iff.mpr (.inl ⟨outside, rfl, rfl⟩))
      · intro inside
        refine ⟨(readSection_all_succ _ _ _ _).mpr fun guard => absurd guard outside, ?_⟩
        intro result after parsed
        rcases parseEntries_iff.mp parsed with ⟨-, -, rfl⟩ | ⟨guard, -⟩ | ⟨guard, -⟩
        · exact inside
        · exact absurd guard outside
        · exact absurd guard outside

/-- Where an entry follows: its name, what is behind it, and the rest. -/
theorem RestInside.entry_iff {fuel : Nat} {sec : Section} {count offset : Nat}
    (guard : offset < len - sec.size) :
    RestInside memory len fuel sec (count + 1) offset ↔
      (Reads.extractDnsName memory len fuel offset).All (· < len) ∧
        (∀ after, extractDnsName memory len fuel offset = some (none, after) →
          SectionsInside memory len fuel sec.later after) ∧
        ∀ name after, extractDnsName memory len fuel offset = some (some name, after) →
          (sec.readEntry memory len fuel name after).All (· < len) ∧
            ∀ json next, sec.entry memory len fuel name after = some (json, next) →
              RestInside memory len fuel sec count next := by
  constructor
  · rintro ⟨all, rest⟩
    obtain ⟨named, entries⟩ := (readSection_all_succ _ _ _ _).mp all guard
    refine ⟨named, fun after read => ?_, fun name after read => ?_⟩
    · exact rest _ _ (parseEntries_iff.mpr (.inr (.inl ⟨guard, read, rfl⟩)))
    · obtain ⟨entry, behind⟩ := entries name after read
      refine ⟨entry, fun json next readEntry => ⟨behind json next readEntry, ?_⟩⟩
      intro result last parsed
      exact rest _ _ (parseEntries_iff.mpr (.inr (.inr
        ⟨guard, name, after, json, next, result, read, readEntry, parsed, rfl⟩)))
  · rintro ⟨named, nameless, entries⟩
    constructor
    · refine (readSection_all_succ _ _ _ _).mpr fun _ => ⟨named, fun name after read => ?_⟩
      obtain ⟨entry, behind⟩ := entries name after read
      exact ⟨entry, fun json next readEntry => (behind json next readEntry).1⟩
    · intro result last parsed
      rcases parseEntries_iff.mp parsed with ⟨outside, -⟩ | ⟨-, read, -⟩ |
        ⟨-, name, after, json, next, rest, read, readEntry, parsedRest, -⟩
      · exact absurd guard outside
      · exact nameless last read
      · exact ((entries name after read).2 json next readEntry).2 _ _ parsedRest

/-- A section that is put into the object, and what is done behind it. -/
theorem addSection_all_iff {fuel : Nat} (sec : Section) {key : String} {dns : Json} {offset : Nat}
    {β : Type} {behind : Option (Json × Nat) → Recorded Nat β} {rest : List Section}
    (failed : (behind none).All (· < len))
    (added : ∀ dns after, (behind (some (dns, after))).All (· < len) ↔
      SectionsInside memory len fuel rest after) :
    (Reads.addSection (readSection memory len fuel sec) key (sec.count memory) dns offset >>=
        behind).All (· < len) ↔ SectionsInside memory len fuel (sec :: rest) offset := by
  rw [Recorded.all_bind, Reads.value_addSection, SectionsInside]
  simp only [value_readSection]
  cases sec.count memory with
  | zero =>
      rw [Reads.addSection, addSection, if_neg (Nat.lt_irrefl 0), if_neg (Nat.lt_irrefl 0)]
      constructor
      · rintro ⟨-, all⟩
        refine ⟨readSection_all_zero fuel sec offset, fun result after parsed => ?_⟩
        cases parsed
        exact (added dns offset).mp all
      · rintro ⟨-, rest⟩
        exact ⟨Recorded.all_pure _, (added dns offset).mpr (rest _ _ rfl)⟩
  | succ count =>
      rw [Reads.addSection, addSection, if_pos (Nat.succ_pos count), if_pos (Nat.succ_pos count),
        Recorded.all_bind, value_readSection]
      cases parseSection memory len fuel sec (count + 1) offset with
      | none =>
          constructor
          · rintro ⟨⟨all, -⟩, -⟩
            refine ⟨all, fun result after same => ?_⟩
            cases same
          · rintro ⟨all, -⟩
            exact ⟨⟨all, Recorded.all_pure _⟩, failed⟩
      | some parsed =>
          obtain ⟨entries, last⟩ := parsed
          constructor
          · rintro ⟨⟨all, -⟩, rest⟩
            refine ⟨all, fun result after same => ?_⟩
            cases same
            exact (added _ _).mp rest
          · rintro ⟨all, rest⟩
            exact ⟨⟨all, Recorded.all_pure _⟩, (added _ _).mpr (rest _ _ rfl)⟩

/-- What the dissector reads of a message with a header is what it reads of the sections. -/
theorem payload_all_iff (memory : Nat → UInt8) (len fuel : Nat) :
    (Reads.nblexParseDnsPayload memory len fuel).All (· < len) ↔
      (headerSize ≤ len → SectionsInside memory len fuel
        [.questions, .answers, .authorities, .additionals] headerSize) := by
  rw [Reads.nblexParseDnsPayload, Recorded.all_ite]
  refine (and_iff_right fun _ => Recorded.all_pure _).trans ?_
  rw [Nat.not_lt]
  refine imp_congr_right fun complete => ?_
  have bound : 12 ≤ len := complete
  have header : (Reads.headerObject memory).All (· < len) :=
    reading_all.mpr fun _ => by rw [Nat.zero_add]; exact complete
  have number : ∀ offset, offset + 2 ≤ 12 → (Reads.u16At memory offset).All (· < len) :=
    fun offset inside => reading_all.mpr fun _ => Nat.le_trans inside bound
  iterate 5 rw [Recorded.all_bind]
  rw [and_iff_right header, and_iff_right (number 4 (by decide)),
    and_iff_right (number 6 (by decide)), and_iff_right (number 8 (by decide)),
    and_iff_right (number 10 (by decide))]
  refine addSection_all_iff .questions (Recorded.all_pure _) fun dns offset => ?_
  refine addSection_all_iff .answers (Recorded.all_pure _) fun dns offset => ?_
  refine addSection_all_iff .authorities (Recorded.all_pure _) fun dns offset => ?_
  refine addSection_all_iff .additionals (Recorded.all_pure _) fun dns offset => ?_
  exact iff_of_true (Recorded.all_pure _) trivial

/-- What is read from the places that the dissector comes to is in the message, with as many turns
    of the loops as it takes to come there. -/
theorem Comes.inside
    (all : ∀ fuel, SectionsInside memory len fuel
      [.questions, .answers, .authorities, .additionals] headerSize)
    {sec : Section} {count offset : Nat} (comes : Comes memory len sec count offset) :
    ∃ least, ∀ more, RestInside memory len (least + more) sec count offset := by
  induction comes with
  | first _ => exact ⟨0, fun more => all (0 + more)⟩
  | @entry sec count offset length after _ guard ends notEmpty targetEnds ih =>
      obtain ⟨least, ih⟩ := ih
      obtain ⟨fuel, name, read, empty⟩ := ends.read
      cases name with
      | none => exact absurd (empty.mp rfl) notEmpty
      | some text =>
          obtain ⟨fuel', json, readEntry⟩ := Section.entry_reads text fun target => by
            obtain ⟨length', after', ends'⟩ := targetEnds target
            obtain ⟨fuel', name', read', -⟩ := ends'.read
            exact ⟨fuel', _, read'⟩
          refine ⟨least + fuel + fuel', fun more => ?_⟩
          have here := ih (fuel + fuel' + more)
          rw [← Nat.add_assoc, ← Nat.add_assoc] at here
          have rest := ((RestInside.entry_iff guard).mp here).2.2 text after
            (extractDnsName_of_le (by omega) read)
          refine rest.2 json _ ?_
          have read := Section.entry_more readEntry (least + fuel + more)
          rwa [Nat.add_left_comm, ← Nat.add_assoc] at read
  | done _ noEntry later ih =>
      obtain ⟨least, ih⟩ := ih
      refine ⟨least, fun more => ?_⟩
      exact (sectionsInside_later later _).mp ((RestInside.done_iff noEntry).mp (ih more))
  | nameless _ guard ends later ih =>
      obtain ⟨least, ih⟩ := ih
      obtain ⟨fuel, name, read, empty⟩ := ends.read
      obtain rfl := empty.mpr rfl
      refine ⟨least + fuel, fun more => ?_⟩
      have here := ih (fuel + more)
      rw [← Nat.add_assoc] at here
      have rest := ((RestInside.entry_iff guard).mp here).2.1 _
        (extractDnsName_of_le (by omega) read)
      exact (sectionsInside_later later _).mp rest

/-- So the entries that it comes to are whole. -/
theorem Comes.entryWhole
    (all : ∀ fuel, SectionsInside memory len fuel
      [.questions, .answers, .authorities, .additionals] headerSize)
    {sec : Section} {count offset : Nat} (comes : Comes memory len sec (count + 1) offset)
    (guard : offset < len - sec.size) : EntryWhole memory len sec offset := by
  obtain ⟨least, inside⟩ := comes.inside all
  constructor
  · refine (extractDnsName_all_iff offset).mp fun fuel => ?_
    have named := ((RestInside.entry_iff guard).mp (inside fuel)).1
    exact extractDnsName_all_of_le (Nat.le_add_left _ _) named
  · intro length after ends notEmpty
    obtain ⟨turns, name, read, empty⟩ := ends.read
    cases name with
    | none => exact absurd (empty.mp rfl) notEmpty
    | some text =>
        have entry : ∀ fuel, (sec.readEntry memory len (least + (turns + fuel)) text after).All
            (· < len) := by
          intro fuel
          have here := (RestInside.entry_iff guard).mp (inside (turns + fuel))
          exact (here.2.2 text after (extractDnsName_of_le (by omega) read)).1
        refine ⟨((Section.readEntry_all_iff _ _ _ _).mp (entry 0)).1, fun target => ?_⟩
        refine (extractDnsName_all_iff _).mp fun fuel => ?_
        have named := ((Section.readEntry_all_iff _ _ _ _).mp (entry fuel)).2 target
        exact extractDnsName_all_of_le (by omega) named

/-- If the entries are whole, what is read from each place on is in the message, provided it is from
    the sections behind. -/
theorem Comes.restInside_of_later {fuel : Nat} {sec : Section}
    (whole : ∀ count offset, Comes memory len sec (count + 1) offset →
      offset < len - sec.size → EntryWhole memory len sec offset)
    (behind : ∀ offset, (∀ next rest, sec.later = next :: rest →
      Comes memory len next (next.count memory) offset) →
        SectionsInside memory len fuel sec.later offset) (count : Nat) :
    ∀ offset, Comes memory len sec count offset → RestInside memory len fuel sec count offset := by
  induction count with
  | zero =>
      intro offset comes
      exact (RestInside.done_iff (.inl rfl)).mpr
        (behind offset fun next rest later => .done comes (.inl rfl) later)
  | succ count ih =>
      intro offset comes
      by_cases guard : offset < len - sec.size
      · obtain ⟨named, fixed⟩ := whole count offset comes guard
        refine (RestInside.entry_iff guard).mpr ⟨(extractDnsName_all_iff offset).mpr named fuel,
          fun after read => ?_, fun name after read => ?_⟩
        · obtain ⟨length, ends, empty⟩ := extractDnsName_ends read
          obtain rfl := empty.mp rfl
          exact behind after fun next rest later => .nameless comes guard ends later
        · obtain ⟨length, ends, empty⟩ := extractDnsName_ends read
          have notEmpty : length ≠ 0 := fun zero => nomatch empty.mpr zero
          obtain ⟨inside, target⟩ := fixed length after ends notEmpty
          refine ⟨(Section.readEntry_all_iff _ _ _ _).mpr ⟨inside, fun isTarget =>
            (extractDnsName_all_iff _).mpr (target isTarget) fuel⟩, fun json next readEntry => ?_⟩
          obtain rfl := Section.entry_next readEntry
          refine ih _ (.entry comes guard ends notEmpty fun isTarget => ?_)
          have isSome := Option.isSome_iff_exists.mpr ⟨_, readEntry⟩
          obtain ⟨⟨name', after'⟩, read'⟩ :=
            Option.isSome_iff_exists.mp ((Section.entry_isSome _ _ _ _).mp isSome isTarget)
          obtain ⟨length', ends', -⟩ := extractDnsName_ends read'
          exact ⟨length', after', ends'⟩
      · exact (RestInside.done_iff (.inr guard)).mpr
          (behind offset fun next rest later => .done comes (.inr guard) later)

theorem Comes.restInside (fuel : Nat)
    (whole : ∀ sec count offset, Comes memory len sec (count + 1) offset →
      offset < len - sec.size → EntryWhole memory len sec offset) (sections : List Section) :
    ∀ {sec : Section}, sec.later = sections → ∀ count offset, Comes memory len sec count offset →
      RestInside memory len fuel sec count offset := by
  induction sections with
  | nil =>
      intro sec last
      refine Comes.restInside_of_later (whole sec) fun offset _ => ?_
      rw [last]
      trivial
  | cons next rest ih =>
      intro sec later
      refine Comes.restInside_of_later (whole sec) fun offset comes => ?_
      exact (sectionsInside_later later offset).mpr
        (ih (Section.later_next later) _ offset (comes next rest later))

end Message

/-- Whatever follows the message in memory, no byte behind it is read exactly if each entry that the
    dissector comes to is whole, in a message with a header. -/
theorem nblexParseDnsPayload_inside_iff [Jansson] [Inet] (memory : Nat → UInt8) (len : Nat) :
    (∀ fuel, (Reads.nblexParseDnsPayload memory len fuel).All (· < len)) ↔
      ∀ sec count offset, Comes memory len sec (count + 1) offset → offset < len - sec.size →
        EntryWhole memory len sec offset := by
  constructor
  · intro all sec count offset comes guard
    refine comes.entryWhole (fun fuel => ?_) guard
    exact (payload_all_iff memory len fuel).mp (all fuel) comes.complete
  · intro whole fuel
    refine (payload_all_iff memory len fuel).mpr fun complete => ?_
    exact Comes.restInside fuel whole _ rfl _ _ (.first complete)

/-- A message with one question, cut behind four bytes of a label of 63. -/
def cutLabel : List UInt8 :=
  [0, 0, 0, 0, 0, 1, 0, 0, 0, 0, 0, 0, 63, 97, 97, 97, 97]

theorem cutLabel_read_outside :
    ¬∀ (message : List UInt8) (fuel : Nat),
      (@Reads.nblexParseDnsPayload (memoryOf message) message.length acceptingJansson
        ⟨fun _ => [], fun _ => []⟩ fuel).All (· < message.length) := by
  intro all
  let _ := acceptingJansson
  let _ : Inet := ⟨fun _ => [], fun _ => []⟩
  have whole := (nblexParseDnsPayload_inside_iff (memoryOf cutLabel) cutLabel.length).mp
    (all cutLabel) .questions 0 headerSize (.first (by decide)) (by decide)
  have label := (whole.1 headerSize 0 none .start (by decide)).2 (by decide) (by decide)
  exact absurd label (by decide)

end Dns

end Nblex
