import Mathlib.Data.List.TakeWhile
import Nblex.Parsers.DnsEncoding
import Nblex.Parsers.Proofs.DnsNames

/-!
# Questions are read as they were written

A name on the wire is read label by label, with its zero byte. So the questions of a message that
has nothing else are all read: the last of them still leaves more bytes than the guard of the loop
asks for.
-/

namespace Nblex

namespace Dns

/-! ## Names -/

/-- A label behind those that have been read. -/
def appendLabel (name : List UInt8) (label : Label) : List UInt8 :=
  name ++ (if name = [] then [] else [46]) ++ label.bytes

theorem appendLabel_ne_nil (name : List UInt8) (label : Label) : appendLabel name label ≠ [] :=
  List.append_ne_nil_of_right_ne_nil _ label.nonempty

theorem foldl_appendLabel (labels : List Label) : ∀ {name : List UInt8}, name ≠ [] →
    labels.foldl appendLabel name = name ++ labels.flatMap fun label => 46 :: label.bytes := by
  induction labels with
  | nil => exact fun _ => (List.append_nil _).symm
  | cons label rest ih =>
      intro name notEmpty
      rw [List.foldl_cons, ih (appendLabel_ne_nil name label), appendLabel, if_neg notEmpty,
        List.flatMap_cons]
      simp

/-- The name that is read is the one with dots. -/
theorem dotted_eq_foldl (labels : List Label) : dotted labels = labels.foldl appendLabel [] := by
  have behind : ∀ (rest : List Label) (label : Label),
      dotted (label :: rest) = label.bytes ++ rest.flatMap fun label => 46 :: label.bytes := by
    intro rest
    induction rest with
    | nil => simp [dotted]
    | cons next rest ih =>
        intro label
        have step : dotted (label :: next :: rest) =
            label.bytes ++ 46 :: dotted (next :: rest) := by
          simp [dotted]
        rw [step, ih, List.flatMap_cons]
        rfl
  cases labels with
  | nil => rfl
  | cons label rest =>
      rw [behind, List.foldl_cons, foldl_appendLabel rest (appendLabel_ne_nil [] label)]
      rfl

/-- Each label makes the name longer. -/
theorem length_foldl_appendLabel (labels : List Label) : ∀ (name : List UInt8),
    name.length + labels.length ≤ (labels.foldl appendLabel name).length := by
  induction labels with
  | nil => exact fun _ => Nat.le_refl _
  | cons label rest ih =>
      intro name
      have more := ih (appendLabel name label)
      have some : 0 < label.bytes.length := List.length_pos_of_ne_nil label.nonempty
      have longer : (appendLabel name label).length ≥ name.length + label.bytes.length := by
        rw [appendLabel, List.length_append, List.length_append]
        omega
      rw [List.foldl_cons, List.length_cons]
      omega

/-- Dots are printable too. -/
theorem DomainName.printable (name : DomainName) :
    ∀ b ∈ name.text, 0x20 ≤ b.toNat ∧ b.toNat ≤ 0x7E := by
  have behind : ∀ (labels : List Label) (text : List UInt8),
      (∀ b ∈ text, 0x20 ≤ b.toNat ∧ b.toNat ≤ 0x7E) →
        ∀ b ∈ labels.foldl appendLabel text, 0x20 ≤ b.toNat ∧ b.toNat ≤ 0x7E := by
    intro labels
    induction labels with
    | nil => exact fun _ printable => printable
    | cons label rest ih =>
        intro text printable
        apply ih
        intro b member
        rw [appendLabel, List.mem_append, List.mem_append] at member
        rcases member with (before | dot) | inside
        · exact printable b before
        · split at dot
          · cases dot
          · rw [List.mem_singleton.mp dot]
            decide
        · exact label.printable b inside
  rw [DomainName.text, dotted_eq_foldl]
  exact behind name.labels [] nofun

theorem DomainName.text_ne_nil (name : DomainName) : name.text ≠ [] := by
  have longer := length_foldl_appendLabel name.labels []
  have some := List.length_pos_of_ne_nil name.notRoot
  rw [DomainName.text, dotted_eq_foldl]
  apply List.ne_nil_of_length_pos
  omega

/-- The text of a name has no zero byte in it. -/
theorem DomainName.takeWhile_text (name : DomainName) :
    name.text.takeWhile (fun b => b ≠ 0) = name.text := by
  apply List.takeWhile_eq_self_iff.mpr
  intro b member
  have printable := (name.printable b member).1
  apply decide_eq_true
  rintro rfl
  exact absurd printable (by decide)

/-- A name on the wire has a byte before its text and one behind it. -/
theorem DomainName.length_encode (name : DomainName) :
    name.encode.length = name.text.length + 2 := by
  have behind : ∀ labels : List Label, (encodeLabels labels).length =
      (labels.flatMap fun label => 46 :: label.bytes).length := by
    intro labels
    induction labels with
    | nil => rfl
    | cons label rest ih =>
        rw [encodeLabels] at ih ⊢
        rw [List.flatMap_cons, List.flatMap_cons, List.length_append, List.length_append, ih]
        rfl
  rw [DomainName.encode, DomainName.text, List.length_append, behind, dotted_eq_foldl]
  cases labels : name.labels with
  | nil => exact absurd labels name.notRoot
  | cons label rest =>
      rw [List.foldl_cons, foldl_appendLabel rest (appendLabel_ne_nil [] label),
        List.flatMap_cons, List.length_append, List.length_append]
      show label.bytes.length + 1 + _ + 1 = label.bytes.length + _ + 2
      omega

/-- Without the two highest bits a byte is no pointer. -/
theorem isPointer_of_small {length : Nat} (small : length < 0xC0) : isPointer length = false := by
  apply decide_eq_false
  intro masked
  have below : length &&& 0xC0 ≤ length := Nat.and_le_left
  omega

theorem Label.toNat_length (label : Label) :
    (UInt8.ofNat label.bytes.length).toNat = label.bytes.length := by
  have short := label.short
  rw [UInt8.toNat_ofNat']
  omega

section Memory

variable {memory : Nat → UInt8} {len : Nat}

/-- A turn of the loop at a label, after a pointer or not. -/
theorem nameTurn_at_label {label : Label} {offset : Nat} {name : List UInt8} (jump : Option Nat)
    (lies : BytesAt memory offset (UInt8.ofNat label.bytes.length :: label.bytes))
    (inside : offset < len) (room : (appendLabel name label).length ≤ 253) :
    nameTurn memory len ⟨offset, name, jump⟩ =
      .again ⟨offset + 1 + label.bytes.length, appendLabel name label, jump⟩ := by
  obtain ⟨length, bytes⟩ := lies
  have some : 0 < label.bytes.length := List.length_pos_of_ne_nil label.nonempty
  have short := label.short
  have small : label.bytes.length < 0xC0 := by omega
  have here : (memory offset).toNat = label.bytes.length := by
    rw [length, label.toNat_length]
  have fits : ¬ maxLen ≤ name.length + label.bytes.length + 1 := by
    unfold maxLen
    by_cases empty : name = []
    · rw [empty, List.length_nil]
      omega
    · rw [appendLabel, if_neg empty, List.length_append, List.length_append,
        List.length_singleton] at room
      omega
  have read : bytesAt memory (offset + 1) label.bytes.length = label.bytes := bytes.map_range
  simp only [nameTurn, if_pos inside, here, if_neg (Nat.ne_of_gt some),
    isPointer_of_small small, Bool.false_eq_true, if_false, if_neg fits, read]
  rfl

theorem nameTurn_of_label {label : Label} {offset : Nat} {name : List UInt8}
    (lies : BytesAt memory offset (UInt8.ofNat label.bytes.length :: label.bytes))
    (inside : offset < len) (room : (appendLabel name label).length ≤ 253) :
    nameTurn memory len ⟨offset, name, none⟩ =
      .again ⟨offset + 1 + label.bytes.length, appendLabel name label, none⟩ :=
  nameTurn_at_label none lies inside room

/-- The loop reads the labels and the zero byte behind them. -/
theorem runLoop_labels (labels : List Label) : ∀ {offset : Nat} {name : List UInt8},
    BytesAt memory offset (encodeLabels labels ++ [0]) →
    offset + (encodeLabels labels).length < len →
    (labels.foldl appendLabel name).length ≤ 253 →
      runLoop (nameTurn memory len) (labels.length + 1) ⟨offset, name, none⟩ =
        some ⟨offset + (encodeLabels labels).length + 1, labels.foldl appendLabel name, none⟩ := by
  induction labels with
  | nil =>
      intro offset name lies inside _
      have zero : (memory offset).toNat = 0 := by
        rw [lies.1]
        rfl
      exact runLoop_leave (nameTurn_stops (.zero inside zero)) _
  | cons label rest ih =>
      intro offset name lies inside room
      have shape : encodeLabels (label :: rest) ++ [0] =
          (UInt8.ofNat label.bytes.length :: label.bytes) ++ (encodeLabels rest ++ [0]) := by
        simp [encodeLabels]
      have size : (encodeLabels (label :: rest)).length =
          label.bytes.length + 1 + (encodeLabels rest).length := by
        rw [encodeLabels, List.flatMap_cons, List.length_append]
        rfl
      rw [shape, bytesAt_append, List.length_cons] at lies
      have fits : (appendLabel name label).length ≤ 253 :=
        Nat.le_trans (Nat.le_of_add_right_le (length_foldl_appendLabel rest _)) room
      have turn := nameTurn_of_label lies.1 (show offset < len by omega) fits
      rw [List.length_cons, runLoop_again turn, Nat.add_assoc offset 1, Nat.add_comm 1,
        ih lies.2 (by omega) room, size, List.foldl_cons]
      simp only [Nat.add_assoc]

/-- With turns enough for the longest name, a name is read as it was written, and the offset is
    behind it. -/
theorem DomainName.read (name : DomainName) {offset fuel : Nat}
    (lies : BytesAt memory offset name.encode) (inside : offset + name.encode.length ≤ len)
    (enough : maxLen ≤ fuel) :
    extractDnsName memory len fuel offset =
      some (some name.text, offset + name.encode.length) := by
  have short := name.short
  have longer := length_foldl_appendLabel name.labels []
  have size : name.encode.length = (encodeLabels name.labels).length + 1 := List.length_append
  have text : name.labels.foldl appendLabel [] = name.text := (dotted_eq_foldl _).symm
  rw [dotted_eq_foldl] at short
  have room : name.labels.length + 1 ≤ fuel := by
    rw [List.length_nil, Nat.zero_add] at longer
    unfold maxLen at enough
    omega
  have done : runLoop (nameTurn memory len) _ ⟨offset, [], none⟩ = some _ :=
    runLoop_labels name.labels lies (by omega) short
  have more := runLoop_more done (fuel - (name.labels.length + 1))
  rw [Nat.add_sub_of_le room] at more
  rw [extractDnsName, more, Option.map_some, nameResult, text, if_neg name.text_ne_nil,
    name.takeWhile_text, size]
  rfl

theorem u16At_of_bytesAt {offset value : Nat} (lies : BytesAt memory offset (bigEndian16 value))
    (small : value < 65536) : u16At memory offset = value := by
  obtain ⟨high, low, -⟩ := lies
  rw [Dns.u16At, high, low, bigEndian16_value small]

/-! ## Questions -/

/-- Printable texts are accepted as UTF-8. -/
def AcceptsPrintable [Jansson] : Prop :=
  ∀ text : List Char, (∀ c ∈ text, 0x20 ≤ c.toNat ∧ c.toNat ≤ 0x7E) →
    Jansson.utf8CheckString text = true

/-- The text of a name as a string. -/
def DomainName.string (name : DomainName) : Json := .string (String.ofList (charsOf name.text))

/-- What is to be returned for a question. -/
def Question.object (question : Question) : Json :=
  .object [("name", question.qname.string), ("type", .integer question.qtype.toNat),
    ("class", .integer question.qclass.toNat)]

theorem Question.length_encode (question : Question) :
    question.encode.length = question.qname.encode.length + questionSize := by
  rw [Question.encode, List.length_append, List.length_append]
  rfl

variable [Jansson]

theorem DomainName.stringOf_text (accepts : AcceptsPrintable) (name : DomainName) :
    stringOf name.text = some name.string := by
  apply if_pos
  apply accepts
  intro c member
  obtain ⟨b, inside, rfl⟩ := List.mem_map.mp member
  have printable := name.printable b inside
  have valid : b.toNat.isValidChar := .inl (Nat.lt_of_le_of_lt printable.2 (by decide))
  have same : (Char.ofNat b.toNat).toNat = b.toNat := by
    rw [Char.ofNat, dif_pos valid]
    rfl
  rw [same]
  exact printable

/-- A question behind its name. -/
theorem Question.read (accepts : AcceptsPrintable) (question : Question) {offset : Nat}
    (qtype : BytesAt memory offset (bigEndian16 question.qtype.toNat))
    (qclass : BytesAt memory (offset + 2) (bigEndian16 question.qclass.toNat)) :
    readQuestion memory question.qname.text offset =
      some (question.object, offset + questionSize) := by
  rw [readQuestion, u16At_of_bytesAt qtype question.qtype.toNat_lt,
    u16At_of_bytesAt qclass question.qclass.toNat_lt, question.qname.stringOf_text accepts]
  rfl

/-- All questions are read if the message ends behind them: the name of the last has at least three
    bytes. -/
theorem parseDnsQuestions_read (accepts : AcceptsPrintable) {fuel : Nat} (enough : maxLen ≤ fuel)
    (questions : List Question) : ∀ {offset : Nat},
    BytesAt memory offset (encodeQuestions questions) →
    offset + (encodeQuestions questions).length ≤ len →
      parseDnsQuestions memory len fuel questions.length offset =
        some (some (questions.map Question.object),
          offset + (encodeQuestions questions).length) := by
  induction questions with
  | nil => exact fun _ _ => rfl
  | cons question rest ih =>
      intro offset lies inside
      have shape : encodeQuestions (question :: rest) = question.encode ++ encodeQuestions rest :=
        List.flatMap_cons
      have size := question.length_encode
      have named := question.qname.length_encode
      have some := List.length_pos_of_ne_nil question.qname.text_ne_nil
      rw [shape, List.length_append] at inside ⊢
      rw [shape, bytesAt_append] at lies
      obtain ⟨here, behind⟩ := lies
      rw [Question.encode, bytesAt_append, bytesAt_append, List.length_append] at here
      obtain ⟨⟨name, qtype⟩, qclass⟩ := here
      have guard : offset < len - questionSize := by
        unfold questionSize at size ⊢
        omega
      have readName := question.qname.read name (show _ ≤ len by omega) enough
      have readRest := ih behind (by omega)
      rw [parseDnsQuestions] at readRest ⊢
      rw [List.length_cons, parseEntries, if_pos guard, readName]
      dsimp only
      rw [question.read accepts qtype qclass]
      dsimp only
      rw [Nat.add_assoc offset, ← size, readRest]
      simp only [Option.map_some, List.map_cons, Nat.add_assoc]

end Memory

/-! ## Messages -/

/-- What is to be returned for a message with questions alone. -/
def queryObject (id flags : UInt16) (questions : List Question) : Json :=
  .object [("id", .integer id.toNat), ("qr", .bool (flags.toNat.testBit 15)),
    ("opcode", .integer (flags.toNat / 2 ^ 11 % 16 : Nat)),
    ("aa", .bool (flags.toNat.testBit 10)), ("tc", .bool (flags.toNat.testBit 9)),
    ("rd", .bool (flags.toNat.testBit 8)), ("ra", .bool (flags.toNat.testBit 7)),
    ("rcode", .integer (flags.toNat % 16 : Nat)), ("qdcount", .integer questions.length),
    ("ancount", .integer 0), ("nscount", .integer 0), ("arcount", .integer 0),
    ("questions", .array (questions.map Question.object))]

/-- A mask of one bit. -/
theorem masked_ne_zero (n i : Nat) : decide (n &&& 2 ^ i ≠ 0) = n.testBit i := by
  rw [Nat.and_two_pow]
  cases n.testBit i with
  | false => simp
  | true => simp

theorem opcode_eq (flags : Nat) : (flags &&& 0x7800) >>> 11 = flags / 2 ^ 11 % 16 := by
  rw [Nat.shiftRight_and_distrib, Nat.shiftRight_eq_div_pow flags]
  exact Nat.and_two_pow_sub_one_eq_mod _ 4

/-- The numbers of a header are got back. -/
theorem header_read {memory : Nat → UInt8} {id flags : UInt16} {qd an ns ar : Nat}
    (lies : BytesAt memory 0 (encodeHeader id flags qd an ns ar)) (small : qd < 65536)
    (smallAn : an < 65536) (smallNs : ns < 65536) (smallAr : ar < 65536) :
    u16At memory 0 = id.toNat ∧ u16At memory 2 = flags.toNat ∧ qdcount memory = qd ∧
      ancount memory = an ∧ nscount memory = ns ∧ arcount memory = ar := by
  simp only [encodeHeader, bytesAt_append] at lies
  obtain ⟨⟨⟨⟨⟨atId, atFlags⟩, atQd⟩, atAn⟩, atNs⟩, atAr⟩ := lies
  exact ⟨u16At_of_bytesAt atId id.toNat_lt, u16At_of_bytesAt atFlags flags.toNat_lt,
    u16At_of_bytesAt atQd small, u16At_of_bytesAt atAn smallAn, u16At_of_bytesAt atNs smallNs,
    u16At_of_bytesAt atAr smallAr⟩

/-- A message with questions alone is read as it was written: its header, and all questions in
    their order. -/
theorem nblexParseDnsPayload_query [Jansson] [Inet] (accepts : AcceptsPrintable) (id flags : UInt16)
    (questions : List Question) (asked : questions ≠ []) (counted : questions.length ≤ 65535)
    (beyond : Nat → UInt8) (fuel : Nat) (enough : maxLen ≤ fuel) :
    nblexParseDnsPayload (memoryWith (encodeQuery id flags questions) beyond)
        (encodeQuery id flags questions).length fuel =
      some (some (queryObject id flags questions)) := by
  have lies : BytesAt (memoryWith (encodeQuery id flags questions) beyond) 0
      (encodeQuery id flags questions) := by
    have whole := bytesAt_memoryWith [] (encodeQuery id flags questions) [] beyond
    rwa [List.nil_append, List.append_nil] at whole
  generalize memoryWith (encodeQuery id flags questions) beyond = memory at lies ⊢
  have size : (encodeQuery id flags questions).length =
      headerSize + (encodeQuestions questions).length := List.length_append
  rw [encodeQuery, bytesAt_append] at lies
  obtain ⟨header, behind⟩ := lies
  obtain ⟨atId, atFlags, qd, an, ns, ar⟩ := header_read header (by omega) (by decide) (by decide)
    (by decide)
  have read : parseDnsQuestions memory (encodeQuery id flags questions).length fuel
      questions.length headerSize = _ :=
    parseDnsQuestions_read accepts enough questions behind (Nat.le_of_eq size.symm)
  have object : (headerObject memory).set "questions"
      (some (.array (questions.map Question.object))) = queryObject id flags questions := by
    have rcode : flags.toNat &&& 0x000F = flags.toNat % 16 :=
      Nat.and_two_pow_sub_one_eq_mod _ 4
    rw [headerObject, atId, atFlags, qd, an, ns, ar, opcode_eq, rcode]
    rw [queryObject, ← masked_ne_zero _ 15, ← masked_ne_zero _ 10, ← masked_ne_zero _ 9,
      ← masked_ne_zero _ 8, ← masked_ne_zero _ 7]
    rfl
  have entries : 0 < questions.length := List.length_pos_of_ne_nil asked
  have complete : ¬(encodeQuery id flags questions).length < headerSize := by omega
  rw [nblexParseDnsPayload, if_neg complete, qd, an, ns, ar]
  simp only [addSection, if_pos entries, read, Option.map_some, object, Nat.lt_irrefl, if_false]

/-- A question for the address of `www.example`. -/
def wwwQuestion : Question where
  qname := {
    labels := [⟨[119, 119, 119], by decide, by decide, by simp⟩,
      ⟨[101, 120, 97, 109, 112, 108, 101], by decide, by decide, by simp⟩]
    notRoot := nofun
    short := by decide }
  qtype := 1
  qclass := 1

/-- Asked twice, with recursion desired. -/
theorem nblexParseDnsPayload_wwwQuery :
    @nblexParseDnsPayload acceptingJansson ⟨fun _ => [], fun _ => []⟩
        (memoryWith (encodeQuery 0x1234 0x0100 [wwwQuestion, wwwQuestion]) fun _ => 0xFF)
        (encodeQuery 0x1234 0x0100 [wwwQuestion, wwwQuestion]).length 300 =
      some (some (queryObject 0x1234 0x0100 [wwwQuestion, wwwQuestion])) :=
  @nblexParseDnsPayload_query acceptingJansson ⟨fun _ => [], fun _ => []⟩ (fun _ _ => rfl)
    0x1234 0x0100 [wwwQuestion, wwwQuestion] (by decide) (by decide) (fun _ => 0xFF) 300
    (by decide)

end Dns

end Nblex
