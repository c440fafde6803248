import Nblex.Parsers.Proofs.DnsRoundTrip
import Nblex.Parsers.Proofs.DnsTermination

/-!
# Records are not read as they were written

A record has ten bytes between its owner and its data, and the dissector goes on behind twelve, the
size of the struct with its padding. So behind one record the offset is wrong, and a second record
is read from the third byte of its owner: what comes out is shorter than its name.
-/

namespace Nblex

namespace Dns

section Memory

variable {memory : Nat → UInt8} {len : Nat}

/-! ## Names read too late -/

/-- Where the loop goes on it is at a pointer, or behind a label that it has appended. -/
theorem nameTurn_again {state next : NameState}
    (again : nameTurn memory len state = .again next) :
    (isPointer (memory state.offset).toNat = true ∧ next.name = state.name) ∨
      ((memory state.offset).toNat ≠ 0 ∧
        next.offset = state.offset + 1 + (memory state.offset).toNat ∧
        next.name = state.name ++ (if state.name = [] then [] else [46]) ++
          bytesAt memory (state.offset + 1) (memory state.offset).toNat) := by
  unfold nameTurn at again
  split at again
  · dsimp only at again
    split at again
    · cases again
    · next notEnd =>
      split at again
      · next pointer =>
        cases again
        exact .inl ⟨pointer, rfl⟩
      · split at again
        · cases again
        · cases again
          exact .inr ⟨notEnd, rfl, rfl⟩
  · cases again

theorem nameTurn_leave {state final : NameState}
    (leaves : nameTurn memory len state = .leave final) : final.name = state.name := by
  rcases name_cases memory len state.offset state.name.length with
    ⟨behind, stops⟩ | ⟨target, points⟩ | ⟨inside, notEnd, noPointer, room⟩
  · rw [nameTurn_stops stops] at leaves
    cases leaves
    rfl
  · rw [nameTurn_pointer points] at leaves
    cases leaves
  · obtain ⟨text, -, again⟩ := nameTurn_label inside rfl notEnd noPointer room
    rw [again] at leaves
    cases leaves

/-- A text ends before a zero byte in it. -/
theorem length_takeWhile_le {bytes : List UInt8} : ∀ {i : Nat}, bytes[i]? = some 0 →
    (bytes.takeWhile fun b => b ≠ 0).length ≤ i := by
  induction bytes with
  | nil => exact fun zero => nomatch zero
  | cons first rest ih =>
      intro i zero
      cases i with
      | zero =>
          obtain rfl : first = 0 := Option.some.inj zero
          exact Nat.le_refl 0
      | succ i =>
          rw [List.takeWhile_cons]
          split
          · exact Nat.succ_le_succ (ih zero)
          · exact Nat.zero_le _

/-- The name read so far becomes no longer than a bound: up to the byte that is zero, no more is
    missing than the bound allows, or the name has a zero byte already. -/
def StaysWithin (start last bound : Nat) (state : NameState) : Prop :=
  (start ≤ state.offset ∧ state.offset ≤ last ∧
      state.name.length + (last - state.offset) ≤ bound) ∨
    ∃ i ≤ bound, state.name[i]? = some 0

/-- A label takes no less than what it makes the name longer, with its dot. -/
theorem StaysWithin.step {start last bound : Nat} (ends : memory last = 0)
    (labels : ∀ i, start ≤ i → i < last → (memory i).toNat < 0xC0) {state next : NameState}
    (within : StaysWithin start last bound state)
    (again : nameTurn memory len state = .again next) : StaysWithin start last bound next := by
  rcases nameTurn_again again with ⟨pointer, same⟩ | ⟨notEnd, offset, name⟩
  · rcases within with ⟨behind, before, -⟩ | zero
    · rcases Nat.lt_or_eq_of_le before with inside | atEnd
      · have small := labels state.offset behind inside
        exact absurd pointer (Bool.eq_false_iff.mp (isPointer_of_small small))
      · rw [atEnd, ends] at pointer
        cases pointer
    · exact .inr (same ▸ zero)
  · rcases within with ⟨behind, before, room⟩ | ⟨i, inside, zero⟩
    · have separator : (if state.name = [] then [] else [46] : List UInt8).length ≤ 1 := by
        split
        · exact Nat.zero_le 1
        · exact Nat.le_refl 1
      by_cases passes : next.offset ≤ last
      · refine .inl ⟨by omega, passes, ?_⟩
        have size : (bytesAt memory (state.offset + 1) (memory state.offset).toNat).length =
            (memory state.offset).toNat := by
          rw [bytesAt, List.length_map, List.length_range]
        rw [name, List.length_append, List.length_append, size]
        omega
      · have inside : state.offset < last := by
          refine Nat.lt_of_le_of_ne before fun atEnd => notEnd ?_
          rw [atEnd, ends]
          rfl
        -- The label covers the zero byte.
        refine .inr ⟨state.name.length +
          (if state.name = [] then [] else [46] : List UInt8).length +
          (last - state.offset - 1), by omega, ?_⟩
        rw [name, ← List.length_append, List.getElem?_append_right (Nat.le_add_right _ _),
          Nat.add_sub_cancel_left, bytesAt, List.getElem?_map, List.getElem?_range (by omega),
          Option.map_some]
        have place : state.offset + 1 + (last - state.offset - 1) = last := by omega
        rw [place, ends]
    · refine .inr ⟨i, inside, ?_⟩
      rw [name, List.append_assoc]
      exact List.getElem?_append_left (List.getElem?_eq_some_iff.mp zero).1 ▸ zero

/-- What comes out is a text within the bound. -/
theorem extractDnsName_within {start last bound fuel after : Nat} {text : List UInt8}
    (ends : memory last = 0)
    (labels : ∀ i, start ≤ i → i < last → (memory i).toNat < 0xC0) (before : start ≤ last)
    (room : last - start ≤ bound)
    (read : extractDnsName memory len fuel start = some (some text, after)) :
    text.length ≤ bound := by
  obtain ⟨final, done, same⟩ := Option.map_eq_some_iff.mp read
  obtain ⟨state, reaches, leaves⟩ := runLoop_iff_reaches.mp ⟨fuel, done⟩
  have within : StaysWithin start last bound state := by
    clear leaves
    induction reaches with
    | refl => exact .inl ⟨Nat.le_refl _, before, by simpa using room⟩
    | tail _ again ih => exact ih.step ends labels again
  have shape : text = state.name.takeWhile fun b => b ≠ 0 := by
    rw [← nameTurn_leave leaves]
    unfold nameResult at same
    split at same
    · cases same
    · exact (Option.some.inj (Prod.mk.inj same).1).symm
  rw [shape]
  rcases within with ⟨-, -, short⟩ | ⟨i, inside, zero⟩
  · exact Nat.le_trans (List.takeWhile_prefix _).length_le (Nat.le_of_add_right_le short)
  · exact Nat.le_trans (length_takeWhile_le zero) inside

/-- Before its zero byte a name on the wire has no zero byte and no pointer. -/
theorem encodeLabels_small (labels : List Label) : ∀ b ∈ encodeLabels labels, b.toNat < 0xC0 := by
  intro b member
  obtain ⟨label, -, inside⟩ := List.mem_flatMap.mp member
  have short := label.short
  rcases List.mem_cons.mp inside with rfl | inside
  · rw [label.toNat_length]
    omega
  · exact Nat.lt_of_le_of_lt (label.printable b inside).2 (by decide)

/-- Read from its third byte on, a name gives less than its text. -/
theorem DomainName.read_late {name : DomainName} {offset fuel after : Nat} {text : List UInt8}
    (lies : BytesAt memory offset name.encode)
    (read : extractDnsName memory len fuel (offset + 2) = some (some text, after)) :
    text.length < name.text.length := by
  have size := name.length_encode
  have labelSize : name.encode.length = (encodeLabels name.labels).length + 1 := List.length_append
  have some := List.length_pos_of_ne_nil name.text_ne_nil
  obtain ⟨labels, zero, -⟩ := bytesAt_append.mp lies
  have within : text.length ≤ name.text.length - 1 := by
    refine extractDnsName_within zero ?_ (by omega) (by omega) read
    intro i behind before
    have byte := labels.get (i - offset) (by omega)
    rw [Nat.add_sub_of_le (by omega)] at byte
    rw [byte]
    exact encodeLabels_small _ _ (List.getElem_mem _)
  omega

/-! ## Sections -/

variable [Jansson]

/-- The name in the object of a record is what has been read. -/
theorem recordObject_name (name : List UInt8) (offset : Nat) :
    (recordObject memory name offset).get? "name" = stringOf name := by
  rw [recordObject, Json.get?_set_of_ne (by decide), Json.get?_set_of_ne (by decide),
    Json.get?_set_of_ne (by decide), Json.get?_set_of_ne (by decide)]
  cases stringOf name with
  | none => rfl
  | some text => exact Json.get?_set_self [] "name" text

/-- The string of a name has as many characters as the name has bytes. -/
theorem length_of_stringOf {name : List UInt8} {owner : DomainName}
    (same : stringOf name = some owner.string) : name.length = owner.text.length := by
  unfold stringOf jsonString at same
  split at same
  · have chars : charsOf name = charsOf owner.text :=
      String.ofList_injective (Json.string.inj (Option.some.inj same))
    have sizes := congrArg List.length chars
    rwa [charsOf, charsOf, List.length_map, List.length_map] at sizes
  · cases same

variable [Inet]

/-- An object says of a record what the wire does. -/
def ResourceRecord.Described (record : ResourceRecord) (json : Json) : Prop :=
  json.get? "name" = some record.owner.string ∧
    json.get? "type" = some (.integer record.type.toNat) ∧
    json.get? "class" = some (.integer record.cls.toNat) ∧
    json.get? "ttl" = some (.integer record.ttl.toNat) ∧
    json.get? "rdlength" = some (.integer record.rdata.length) ∧
    (record.type = 1 →
      json.get? "address" = some (.string (String.ofList (Inet.ntop4 record.rdata)))) ∧
    (record.type = 28 →
      json.get? "address" = some (.string (String.ofList (Inet.ntop6 record.rdata))))

/-- A section is read as it was written: its records in their order, and the offset behind it. -/
def SectionRead (memory : Nat → UInt8) (len offset : Nat) (records : List ResourceRecord) : Prop :=
  ∃ fuel entries, parseDnsRrs memory len fuel records.length offset =
      some (some entries, offset + (encodeRecords records).length) ∧
    List.Forall₂ ResourceRecord.Described records entries

/-- The data of a record does not change its name. -/
theorem readRdata_name {fuel type rdlength offset : Nat} {record json : Json}
    (read : readRdata memory len fuel type rdlength offset record = some json) :
    json.get? "name" = record.get? "name" := by
  have address : ∀ value, (record.set "address" value).get? "name" = record.get? "name" :=
    Json.get?_set_of_ne (by decide) record
  unfold readRdata at read
  split at read
  · split at read
    · cases read
      split
      · exact address _
      · rfl
    · split at read
      · cases read
        split
        · exact address _
        · rfl
      · split at read
        · split at read
          · cases read
          · cases read
            rfl
          · cases read
            refine Json.get?_set_of_ne ?_ record _
            split
            · decide
            · decide
        · cases read
          rfl
  · cases read
    rfl

theorem readRecord_name {fuel offset next : Nat} {name : List UInt8} {json : Json}
    (read : readRecord memory len fuel name offset = some (json, next)) :
    json.get? "name" = stringOf name := by
  obtain ⟨record, data, same⟩ := Option.map_eq_some_iff.mp read
  obtain ⟨rfl, -⟩ := Prod.mk.inj same
  rw [readRdata_name data, recordObject_name]

/-- The offset behind an entry that was written is two bytes too far. -/
theorem ResourceRecord.read_next (record : ResourceRecord) {fuel offset next : Nat}
    {name : List UInt8} {json : Json} (lies : BytesAt memory offset record.encodeRest)
    (read : readRecord memory len fuel name offset = some (json, next)) :
    next = offset + record.encodeRest.length + 2 := by
  obtain ⟨object, -, same⟩ := Option.map_eq_some_iff.mp read
  obtain ⟨-, rfl⟩ := Prod.mk.inj same
  have size : record.encodeRest.length = 10 + record.rdata.length := List.length_append
  obtain ⟨fixed, -⟩ := bytesAt_append.mp lies
  obtain ⟨-, rdlength⟩ := bytesAt_append.mp fixed
  have read : u16At memory (offset + 8) = record.rdata.length :=
    u16At_of_bytesAt rdlength (Nat.lt_succ_of_le record.fits)
  rw [read, size, rrSize]
  omega

/-- Behind the first record of a section the dissector goes on two bytes too late. -/
theorem parseDnsRrs_late {record : ResourceRecord} {fuel count offset after : Nat}
    {entries : List Json} (lies : BytesAt memory offset record.encode)
    (inside : offset + record.encode.length ≤ len)
    (parsed : parseDnsRrs memory len fuel (count + 1) offset = some (some entries, after)) :
    entries = [] ∨ ∃ json rest, entries = json :: rest ∧
      parseDnsRrs memory len fuel count (offset + record.encode.length + 2) =
        some (some rest, after) := by
  obtain ⟨owner, behind⟩ := bytesAt_append.mp lies
  have size : record.encode.length = record.owner.encode.length + record.encodeRest.length :=
    List.length_append
  rcases parseEntries_iff.mp parsed with ⟨-, none, -⟩ | ⟨-, -, failed⟩ |
    ⟨-, name, place, json, next, rest, read, readEntry, parsedRest, result⟩
  · exact .inl (Option.some.inj none)
  · cases failed
  · have written := record.owner.read owner (show _ ≤ len by omega) (Nat.le_refl maxLen)
    obtain ⟨-, rfl⟩ := Prod.mk.inj (extractDnsName_unique read written)
    have late := record.read_next behind readEntry
    rw [Nat.add_assoc offset, ← size] at late
    cases rest with
    | none => cases result
    | some rest =>
        subst late
        exact .inr ⟨json, rest, Option.some.inj result, parsedRest⟩

/-- Behind two bytes of its owner a record is not read as it was written. -/
theorem not_described_late {record : ResourceRecord} {fuel count offset after : Nat} {json : Json}
    {rest : List Json} (lies : BytesAt memory offset record.encode)
    (parsed : parseDnsRrs memory len fuel (count + 1) (offset + 2) =
      some (some (json :: rest), after)) : ¬record.Described json := by
  intro described
  obtain ⟨owner, -⟩ := bytesAt_append.mp lies
  rcases parseEntries_iff.mp parsed with ⟨-, none, -⟩ | ⟨-, -, failed⟩ |
    ⟨-, name, place, json', next, entries, read, readEntry, -, result⟩
  · cases none
  · cases failed
  · cases entries with
    | none => cases result
    | some entries =>
        obtain ⟨rfl, -⟩ := List.cons.inj (Option.some.inj result)
        have shorter := DomainName.read_late owner read
        have same := length_of_stringOf ((readRecord_name readEntry).symm.trans described.1)
        omega

/-- A section with a record is not read as it was written. -/
theorem sectionRead_nil_of_lies {records : List ResourceRecord} {offset : Nat}
    (lies : BytesAt memory offset (encodeRecords records))
    (inside : offset + (encodeRecords records).length ≤ len)
    (sectionRead : SectionRead memory len offset records) : records = [] := by
  obtain ⟨fuel, entries, parsed, described⟩ := sectionRead
  cases described with
  | nil => rfl
  | @cons record json rest entries _ described =>
      exfalso
      have shape : encodeRecords (record :: rest) = record.encode ++ encodeRecords rest :=
        List.flatMap_cons
      rw [shape, List.length_append] at inside parsed
      rw [shape, bytesAt_append] at lies
      rcases parseDnsRrs_late lies.1 (by omega) parsed with none | ⟨json', entries', same, late⟩
      · cases none
      · obtain ⟨-, rfl⟩ := List.cons.inj same
        cases described with
        | nil =>
            have offsets := (Prod.mk.inj (Option.some.inj late)).2
            simp only [encodeRecords, List.flatMap_nil, List.length_nil] at offsets
            omega
        | @cons second json₂ rest entries₂ here _ =>
            have shape₂ : encodeRecords (second :: rest) = second.encode ++ encodeRecords rest :=
              List.flatMap_cons
            have lies₂ := lies.2
            rw [shape₂, bytesAt_append] at lies₂
            exact not_described_late lies₂.1 late here

end Memory

/-- In the message of a header, the bytes of other sections and a section of records, the section is
    read as it was written just in case it is empty. -/
theorem sectionRead_iff [Jansson] [Inet] (id flags : UInt16) (qdcount ancount nscount arcount : Nat)
    (before after : List UInt8) (beyond : Nat → UInt8) (records : List ResourceRecord) :
    SectionRead
        (memoryWith (encodeHeader id flags qdcount ancount nscount arcount ++ before ++
          encodeRecords records ++ after) beyond)
        (headerSize + before.length + (encodeRecords records).length + after.length)
        (headerSize + before.length) records ↔
      records = [] := by
  constructor
  · have lies := bytesAt_memoryWith
      (encodeHeader id flags qdcount ancount nscount arcount ++ before) (encodeRecords records)
      after beyond
    rw [List.length_append] at lies
    exact sectionRead_nil_of_lies lies (by show headerSize + _ + _ ≤ _; omega)
  · rintro rfl
    exact ⟨0, [], rfl, .nil⟩

/-- The address of `www.example`. -/
def wwwRecord : ResourceRecord where
  owner := wwwQuestion.qname
  type := 1
  cls := 1
  ttl := 300
  rdata := [192, 0, 2, 1]
  fits := by decide
  address4 := fun _ => rfl
  address6 := nofun
  noName := rfl

/-- One record in the answer section is enough. -/
theorem wwwRecord_misread :
    ¬∀ records : List ResourceRecord,
      @SectionRead acceptingJansson ⟨fun _ => [], fun _ => []⟩
        (memoryWith (encodeHeader 0x1234 0x8180 0 records.length 0 0 ++ [] ++
          encodeRecords records ++ []) fun _ => 0)
        (headerSize + 0 + (encodeRecords records).length + 0) (headerSize + 0) records := by
  intro all
  have empty := (@sectionRead_iff acceptingJansson ⟨fun _ => [], fun _ => []⟩ 0x1234 0x8180 0 1 0 0
    [] [] (fun _ => 0) [wwwRecord]).mp (all [wwwRecord])
  cases empty

end Dns

end Nblex
