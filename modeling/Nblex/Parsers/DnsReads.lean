import Nblex.Misc.Recorded
import Nblex.Parsers.DnsParser

/-!
# What the DNS dissector reads

The functions of `src/parsers/dns_parser.c` once more, where every byte of the message that is read
is recorded. They give what they give without the records, and that depends on no byte but the
recorded ones.
-/

namespace Nblex

namespace Dns

namespace Reads

section Memory

variable (memory : Nat → UInt8)

/-- So many bytes from an offset on are read, and determine a value. -/
def reading {α : Type} (offset count : Nat) (value : α) : Recorded Nat α :=
  ⟨value, (List.range count).map fun i => offset + i⟩

/-- A byte. -/
def byteAt (offset : Nat) : Recorded Nat UInt8 := reading offset 1 (memory offset)

/-- `memcpy` from the message. -/
def bytesAt (offset count : Nat) : Recorded Nat (List UInt8) :=
  reading offset count (Dns.bytesAt memory offset count)

/-- `ntohs`. -/
def u16At (offset : Nat) : Recorded Nat Nat := reading offset 2 (Dns.u16At memory offset)

/-- `ntohl`. -/
def u32At (offset : Nat) : Recorded Nat Nat := reading offset 4 (Dns.u32At memory offset)

variable (len : Nat)

/-- One turn of the loop of `extract_dns_name`. -/
def nameTurn (state : NameState) : Recorded Nat (Turn NameState NameState) :=
  if state.offset < len then do
    let length ← byteAt memory state.offset
    let next := state.offset + 1
    if length.toNat = 0 then pure (.leave { state with offset := next })
    else if isPointer length.toNat then do
      let low ← byteAt memory next
      pure (.again ⟨(length.toNat &&& 0x3F) <<< 8 ||| low.toNat, state.name,
        some (state.jumpOffset.getD (next + 1))⟩)
    else if maxLen ≤ state.name.length + length.toNat + 1 then
      pure (.leave { state with offset := next })
    else do
      let label ← bytesAt memory next length.toNat
      pure (.again ⟨next + length.toNat,
        state.name ++ (if state.name = [] then [] else [46]) ++ label, state.jumpOffset⟩)
  else pure (.leave state)

/-- `extract_dns_name`. -/
def extractDnsName (fuel offset : Nat) : Recorded Nat (Option (Option (List UInt8) × Nat)) := do
  let final ← Recorded.loop (nameTurn memory len) fuel ⟨offset, [], none⟩
  pure (final.map nameResult)

/-- The loop over the entries of a section. -/
def parseEntries (fuel size : Nat)
    (entry : List UInt8 → Nat → Recorded Nat (Option (Json × Nat))) :
    Nat → Nat → Recorded Nat (Option (Option (List Json) × Nat))
  | 0, offset => pure (some (some [], offset))
  | count + 1, offset =>
      if offset < len - size then do
        match ← extractDnsName memory len fuel offset with
        | none => pure none
        | some (none, offset) => pure (some (none, offset))
        | some (some name, offset) => do
            match ← entry name offset with
            | none => pure none
            | some (json, offset) => do
                match ← parseEntries fuel size entry count offset with
                | none => pure none
                | some (entries, offset) =>
                    pure (some (entries.map fun rest => json :: rest, offset))
      else pure (some (some [], offset))

variable [Jansson]

/-- A question behind its name. -/
def readQuestion (name : List UInt8) (offset : Nat) : Recorded Nat (Option (Json × Nat)) := do
  let qtype ← u16At memory offset
  let qclass ← u16At memory (offset + 2)
  pure (some (((Json.object []).set "name" (stringOf name)
    |>.set "type" (some (.integer qtype))
    |>.set "class" (some (.integer qclass))), offset + questionSize))

/-- `parse_dns_questions`. -/
def parseDnsQuestions (fuel qdcount offset : Nat) :
    Recorded Nat (Option (Option (List Json) × Nat)) :=
  parseEntries memory len fuel questionSize (readQuestion memory) qdcount offset

variable [Inet]

/-- The data of a record, if it lies in the message. -/
def readRdata (fuel type rdlength offset : Nat) (record : Json) : Recorded Nat (Option Json) :=
  if offset + rdlength ≤ len then
    if type = 1 then
      if rdlength = 4 then do
        let addr ← bytesAt memory offset 4
        pure (some (record.set "address" (jsonString (Inet.ntop4 addr))))
      else pure (some record)
    else if type = 28 then
      if rdlength = 16 then do
        let addr ← bytesAt memory offset 16
        pure (some (record.set "address" (jsonString (Inet.ntop6 addr))))
      else pure (some record)
    else if hasTarget type then do
      match ← extractDnsName memory len fuel offset with
      | none => pure none
      | some (none, _) => pure (some record)
      | some (some name, _) =>
          pure (some (record.set (if type = 5 then "cname" else "target") (stringOf name)))
    else pure (some record)
  else pure (some record)

/-- The fields of a record but its data. The `ttl` is four bytes, and the padding is not read. -/
def recordObject (name : List UInt8) (offset : Nat) : Recorded Nat Json := do
  let type ← u16At memory offset
  let cls ← u16At memory (offset + 2)
  let ttl ← u32At memory (offset + 4)
  let rdlength ← u16At memory (offset + 8)
  pure ((Json.object []).set "name" (stringOf name)
    |>.set "type" (some (.integer type))
    |>.set "class" (some (.integer cls))
    |>.set "ttl" (some (.integer ttl))
    |>.set "rdlength" (some (.integer rdlength)))

/-- A resource record behind its name. -/
def readRecord (fuel : Nat) (name : List UInt8) (offset : Nat) :
    Recorded Nat (Option (Json × Nat)) := do
  let record ← recordObject memory name offset
  let rdlength ← u16At memory (offset + 8)
  let type ← u16At memory offset
  let record ← readRdata memory len fuel type rdlength (offset + rrSize) record
  pure (record.map fun record => (record, offset + rrSize + rdlength))

/-- `parse_dns_rrs`. -/
def parseDnsRrs (fuel count offset : Nat) : Recorded Nat (Option (Option (List Json) × Nat)) :=
  parseEntries memory len fuel rrSize (readRecord memory len fuel) count offset

/-- A section that is not empty, put into the object of the message. -/
def addSection (parse : Nat → Nat → Recorded Nat (Option (Option (List Json) × Nat)))
    (key : String) (count : Nat) (dns : Json) (offset : Nat) :
    Recorded Nat (Option (Json × Nat)) :=
  if 0 < count then do
    match ← parse count offset with
    | none => pure none
    | some (entries, offset) => pure (some (dns.set key (entries.map .array), offset))
  else pure (some (dns, offset))

/-- The fields of the header, all of its bytes. -/
def headerObject : Recorded Nat Json := reading 0 headerSize (Dns.headerObject memory)

/-- `nblex_parse_dns_payload`. -/
def nblexParseDnsPayload (fuel : Nat) : Recorded Nat (Option (Option Json)) :=
  if len < headerSize then pure (some none)
  else do
    let dns ← headerObject memory
    let qdcount ← u16At memory 4
    let ancount ← u16At memory 6
    let nscount ← u16At memory 8
    let arcount ← u16At memory 10
    match ← addSection (parseDnsQuestions memory len fuel) "questions" qdcount dns headerSize with
    | none => pure none
    | some (dns, offset) => do
        match ← addSection (parseDnsRrs memory len fuel) "answers" ancount dns offset with
        | none => pure none
        | some (dns, offset) => do
            match ← addSection (parseDnsRrs memory len fuel) "authorities" nscount dns offset with
            | none => pure none
            | some (dns, offset) => do
                let last ← addSection (parseDnsRrs memory len fuel) "additionals" arcount dns
                  offset
                pure (last.map fun (dns, _) => some dns)

end Memory

/-! ## The values -/

section Values

variable {memory : Nat → UInt8} {len : Nat}

@[simp] theorem value_reading {α : Type} (offset count : Nat) (value : α) :
    (reading offset count value).value = value := rfl

/-- Without the records the turn is that of the dissector. -/
theorem value_nameTurn (state : NameState) :
    (nameTurn memory len state).value = Dns.nameTurn memory len state := by
  unfold nameTurn
  simp only [Recorded.value_ite, Recorded.value_bind, Recorded.value_pure]
  rfl

theorem value_extractDnsName (fuel offset : Nat) :
    (extractDnsName memory len fuel offset).value = Dns.extractDnsName memory len fuel offset := by
  have same : (fun state => (nameTurn memory len state).value) = Dns.nameTurn memory len :=
    funext value_nameTurn
  rw [extractDnsName, Recorded.value_bind, Recorded.loop_value, same]
  rfl

theorem value_parseEntries (fuel size count : Nat)
    (entry : List UInt8 → Nat → Recorded Nat (Option (Json × Nat))) : ∀ offset,
    (parseEntries memory len fuel size entry count offset).value =
      Dns.parseEntries memory len fuel size (fun name offset => (entry name offset).value) count
        offset := by
  induction count with
  | zero => exact fun _ => rfl
  | succ count ih =>
      intro offset
      rw [parseEntries, Dns.parseEntries, Recorded.value_ite, Recorded.value_bind,
        value_extractDnsName]
      congr 1
      cases Dns.extractDnsName memory len fuel offset with
      | none => rfl
      | some named =>
          obtain ⟨_ | name, behind⟩ := named
          · rfl
          · show Recorded.value (entry name behind >>= _) = _
            rw [Recorded.value_bind]
            show _ = match (entry name behind).value with | none => _ | some (json, offset) => _
            cases (entry name behind).value with
            | none => rfl
            | some read =>
                show Recorded.value (parseEntries memory len fuel size entry count read.2 >>= _) = _
                rw [Recorded.value_bind, ih]
                show _ = match Dns.parseEntries memory len fuel size _ count read.2 with
                  | none => _ | some (entries, offset) => _
                cases Dns.parseEntries memory len fuel size _ count read.2 with
                | none => rfl
                | some rest => rfl

theorem value_addSection (parse : Nat → Nat → Recorded Nat (Option (Option (List Json) × Nat)))
    (key : String) (count : Nat) (dns : Json) (offset : Nat) :
    (addSection parse key count dns offset).value =
      Dns.addSection (fun count offset => (parse count offset).value) key count dns offset := by
  rw [addSection, Dns.addSection, Recorded.value_ite, Recorded.value_bind]
  congr 1
  cases (parse count offset).value with
  | none => rfl
  | some parsed => rfl

variable [Jansson] [Inet]

theorem value_readRdata (fuel type rdlength offset : Nat) (record : Json) :
    (readRdata memory len fuel type rdlength offset record).value =
      Dns.readRdata memory len fuel type rdlength offset record := by
  unfold readRdata Dns.readRdata
  simp only [Recorded.value_ite, Recorded.value_bind, Recorded.value_pure, value_extractDnsName,
    apply_ite some]
  congr 4
  cases Dns.extractDnsName memory len fuel offset with
  | none => rfl
  | some named =>
      obtain ⟨_ | name, behind⟩ := named
      · rfl
      · rfl

theorem value_readRecord (fuel : Nat) (name : List UInt8) (offset : Nat) :
    (readRecord memory len fuel name offset).value =
      Dns.readRecord memory len fuel name offset := by
  simp only [readRecord, Recorded.value_bind, value_readRdata]
  rfl

theorem value_parseDnsRrs (fuel count offset : Nat) :
    (parseDnsRrs memory len fuel count offset).value =
      Dns.parseDnsRrs memory len fuel count offset := by
  rw [parseDnsRrs, value_parseEntries]
  simp only [value_readRecord]
  rfl

/-- Without the records the dissector is the one that is not recorded. -/
theorem value_nblexParseDnsPayload (memory : Nat → UInt8) (len fuel : Nat) :
    (nblexParseDnsPayload memory len fuel).value = Nblex.nblexParseDnsPayload memory len fuel := by
  have records : (fun count offset => (parseDnsRrs memory len fuel count offset).value) =
      Dns.parseDnsRrs memory len fuel := by
    funext count offset
    exact value_parseDnsRrs fuel count offset
  have questions : (fun count offset => (parseDnsQuestions memory len fuel count offset).value) =
      Dns.parseDnsQuestions memory len fuel := by
    funext count offset
    exact value_parseEntries fuel questionSize count (readQuestion memory) offset
  rw [nblexParseDnsPayload, Nblex.nblexParseDnsPayload, Recorded.value_ite]
  congr 1
  simp only [qdcount, ancount, nscount, arcount, headerObject, u16At, Recorded.value_bind,
    value_reading, value_addSection, questions]
  cases Dns.addSection (Dns.parseDnsQuestions memory len fuel) "questions" (Dns.u16At memory 4)
      (Dns.headerObject memory) headerSize with
  | none => rfl
  | some added =>
      simp only [Recorded.value_bind, value_addSection, records]
      cases Dns.addSection (Dns.parseDnsRrs memory len fuel) "answers" (Dns.u16At memory 6)
          added.1 added.2 with
      | none => rfl
      | some added =>
          simp only [Recorded.value_bind, value_addSection, records]
          cases Dns.addSection (Dns.parseDnsRrs memory len fuel) "authorities"
              (Dns.u16At memory 8) added.1 added.2 with
          | none => rfl
          | some added =>
              simp only [Recorded.value_bind, value_addSection, records]
              rfl

end Values

/-! ## Nothing else is read -/

section Recorded

open Recorded

/-- Bytes that are read determine the value. -/
theorem readsRecorded_reading {α : Type} {offset count : Nat} {value : (Nat → UInt8) → α}
    (determined : ∀ memory memory', (∀ i < count, memory (offset + i) = memory' (offset + i)) →
      value memory' = value memory) :
    ReadsRecorded fun memory => reading offset count (value memory) := by
  intro memory memory' agree
  show reading offset count (value memory') = reading offset count (value memory)
  rw [determined memory memory' fun i inside =>
    agree _ (List.mem_map.mpr ⟨i, List.mem_range.mpr inside, rfl⟩)]

theorem readsRecorded_byteAt (offset : Nat) : ReadsRecorded fun memory => byteAt memory offset :=
  readsRecorded_reading fun _ _ agree => (agree 0 Nat.one_pos).symm

theorem readsRecorded_bytesAt (offset count : Nat) :
    ReadsRecorded fun memory => bytesAt memory offset count := by
  apply readsRecorded_reading
  intro memory memory' agree
  exact List.map_congr_left fun i inside => (agree i (List.mem_range.mp inside)).symm

theorem u16At_congr {memory memory' : Nat → UInt8} {offset : Nat}
    (first : memory offset = memory' offset) (second : memory (offset + 1) = memory' (offset + 1)) :
    Dns.u16At memory' offset = Dns.u16At memory offset := by
  rw [Dns.u16At, Dns.u16At, first, second]

theorem readsRecorded_u16At (offset : Nat) : ReadsRecorded fun memory => u16At memory offset :=
  readsRecorded_reading fun _ _ agree =>
    u16At_congr (agree 0 (by decide)) (agree 1 (by decide))

theorem readsRecorded_u32At (offset : Nat) : ReadsRecorded fun memory => u32At memory offset := by
  apply readsRecorded_reading
  intro memory memory' agree
  have high : Dns.u16At memory' offset = Dns.u16At memory offset :=
    u16At_congr (agree 0 (by decide)) (agree 1 (by decide))
  have low : Dns.u16At memory' (offset + 2) = Dns.u16At memory (offset + 2) :=
    u16At_congr (agree 2 (by decide)) (agree 3 (by decide))
  rw [Dns.u32At, Dns.u32At, high, low]

theorem readsRecorded_nameTurn (len : Nat) (state : NameState) :
    ReadsRecorded fun memory => nameTurn memory len state := by
  refine .ite ?_ (readsRecorded_pure _)
  refine (readsRecorded_byteAt _).bind fun length => ?_
  refine .ite (readsRecorded_pure _) (.ite ?_ (.ite (readsRecorded_pure _) ?_))
  · exact (readsRecorded_byteAt _).bind fun low => readsRecorded_pure _
  · exact (readsRecorded_bytesAt _ _).bind fun label => readsRecorded_pure _

theorem readsRecorded_extractDnsName (len fuel offset : Nat) :
    ReadsRecorded fun memory => extractDnsName memory len fuel offset :=
  (readsRecorded_loop (readsRecorded_nameTurn len) fuel _).bind fun _ => readsRecorded_pure _

theorem readsRecorded_parseEntries (len fuel size : Nat)
    {entry : (Nat → UInt8) → List UInt8 → Nat → Recorded Nat (Option (Json × Nat))}
    (reads : ∀ name offset, ReadsRecorded fun memory => entry memory name offset) (count : Nat) :
    ∀ offset, ReadsRecorded fun memory =>
      parseEntries memory len fuel size (entry memory) count offset := by
  induction count with
  | zero => exact fun _ => readsRecorded_pure _
  | succ count ih =>
      intro offset
      refine .ite ?_ (readsRecorded_pure _)
      apply (readsRecorded_extractDnsName len fuel offset).bind
      rintro (_ | ⟨_ | name, behind⟩)
      · exact readsRecorded_pure _
      · exact readsRecorded_pure _
      · apply (reads name behind).bind
        rintro (_ | ⟨json, next⟩)
        · exact readsRecorded_pure _
        · apply (ih next).bind
          rintro (_ | ⟨entries, last⟩)
          · exact readsRecorded_pure _
          · exact readsRecorded_pure _

theorem readsRecorded_addSection
    {parse : (Nat → UInt8) → Nat → Nat → Recorded Nat (Option (Option (List Json) × Nat))}
    (reads : ∀ count offset, ReadsRecorded fun memory => parse memory count offset) (key : String)
    (count : Nat) (dns : Json) (offset : Nat) :
    ReadsRecorded fun memory => addSection (parse memory) key count dns offset := by
  refine .ite ?_ (readsRecorded_pure _)
  apply (reads count offset).bind
  rintro (_ | ⟨entries, after⟩)
  · exact readsRecorded_pure _
  · exact readsRecorded_pure _

theorem headerObject_congr {memory memory' : Nat → UInt8}
    (agree : ∀ i < headerSize, memory i = memory' i) :
    Dns.headerObject memory' = Dns.headerObject memory := by
  have number : ∀ offset, offset + 1 < headerSize →
      Dns.u16At memory' offset = Dns.u16At memory offset := fun offset inside =>
    u16At_congr (agree offset (by omega)) (agree (offset + 1) inside)
  simp only [Dns.headerObject, qdcount, ancount, nscount, arcount, number 0 (by decide),
    number 2 (by decide), number 4 (by decide), number 6 (by decide), number 8 (by decide),
    number 10 (by decide)]

variable [Jansson]

theorem readsRecorded_parseDnsQuestions (len fuel count offset : Nat) :
    ReadsRecorded fun memory => parseDnsQuestions memory len fuel count offset := by
  apply readsRecorded_parseEntries
  intro name offset
  exact (readsRecorded_u16At _).bind fun qtype =>
    (readsRecorded_u16At _).bind fun qclass => readsRecorded_pure _

variable [Inet]

theorem readsRecorded_readRdata (len fuel type rdlength offset : Nat) (record : Json) :
    ReadsRecorded fun memory => readRdata memory len fuel type rdlength offset record := by
  refine .ite (.ite (.ite ?_ (readsRecorded_pure _)) (.ite (.ite ?_ (readsRecorded_pure _))
    (.ite ?_ (readsRecorded_pure _)))) (readsRecorded_pure _)
  · exact (readsRecorded_bytesAt _ _).bind fun addr => readsRecorded_pure _
  · exact (readsRecorded_bytesAt _ _).bind fun addr => readsRecorded_pure _
  · apply (readsRecorded_extractDnsName len fuel offset).bind
    rintro (_ | ⟨_ | name, behind⟩)
    · exact readsRecorded_pure _
    · exact readsRecorded_pure _
    · exact readsRecorded_pure _

theorem readsRecorded_parseDnsRrs (len fuel count offset : Nat) :
    ReadsRecorded fun memory => parseDnsRrs memory len fuel count offset := by
  apply readsRecorded_parseEntries
  intro name offset
  have object : ReadsRecorded fun memory => recordObject memory name offset :=
    (readsRecorded_u16At _).bind fun type => (readsRecorded_u16At _).bind fun cls =>
      (readsRecorded_u32At _).bind fun ttl => (readsRecorded_u16At _).bind fun rdlength =>
        readsRecorded_pure _
  exact object.bind fun record => (readsRecorded_u16At _).bind fun rdlength =>
    (readsRecorded_u16At _).bind fun type =>
      (readsRecorded_readRdata len fuel type rdlength _ record).bind fun _ => readsRecorded_pure _

/-- What the dissector gives, and what it reads, depends on no byte but those it has recorded. -/
theorem readsRecorded_nblexParseDnsPayload (len fuel : Nat) :
    ReadsRecorded fun memory => nblexParseDnsPayload memory len fuel := by
  have header : ReadsRecorded headerObject := readsRecorded_reading fun memory memory' agree =>
    headerObject_congr fun i inside => by simpa only [Nat.zero_add] using agree i inside
  have records := readsRecorded_addSection (readsRecorded_parseDnsRrs len fuel)
  refine .ite (readsRecorded_pure _) (header.bind fun dns => ?_)
  refine (readsRecorded_u16At 4).bind fun qdcount => (readsRecorded_u16At 6).bind fun ancount =>
    (readsRecorded_u16At 8).bind fun nscount => (readsRecorded_u16At 10).bind fun arcount => ?_
  apply (readsRecorded_addSection (readsRecorded_parseDnsQuestions len fuel) _ _ _ _).bind
  rintro (_ | ⟨dns, offset⟩)
  · exact readsRecorded_pure _
  · apply (records _ _ _ _).bind
    rintro (_ | ⟨dns, offset⟩)
    · exact readsRecorded_pure _
    · apply (records _ _ _ _).bind
      rintro (_ | ⟨dns, offset⟩)
      · exact readsRecorded_pure _
      · exact (records _ _ _ _).bind fun last => readsRecorded_pure _

end Recorded

end Reads

end Dns

end Nblex
