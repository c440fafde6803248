import Nblex.Json
import Nblex.Misc.Loop
import Nblex.Parsers.LogfmtParser

/-!
# The DNS dissector

`src/parsers/dns_parser.c`. The message is the first `len` bytes of a memory: a length byte and a
pointer may lead past its end, where the code reads on, so every address holds a byte here.
Addresses do not wrap around. The loop over a name is made under a bound on its turns, the loops
over the entries of a section count down. Allocation is assumed to succeed.
-/

namespace Nblex

/-- `inet_ntop` for the two kinds of addresses. -/
class Inet where
  ntop4 : List UInt8 → List Char
  ntop6 : List UInt8 → List Char

namespace Dns

/-- The bytes of a C string as its characters. -/
def charsOf (bytes : List UInt8) : List Char := bytes.map fun b => Char.ofNat b.toNat

section Memory

variable (memory : Nat → UInt8)

/-- Consecutive bytes. -/
def bytesAt (offset count : Nat) : List UInt8 := (List.range count).map fun i => memory (offset + i)

/-- `ntohs` of the two bytes at an address. -/
def u16At (offset : Nat) : Nat := (memory offset).toNat <<< 8 ||| (memory (offset + 1)).toNat

/-- `ntohl` of the four bytes at an address. -/
def u32At (offset : Nat) : Nat := u16At memory offset <<< 16 ||| u16At memory (offset + 2)

/-! ## Names -/

/-- `(len & 0xC0) == 0xC0`. -/
def isPointer (length : Nat) : Bool := length &&& 0xC0 = 0xC0

/-- `((len & 0x3F) << 8) | packet[*offset]`, for a pointer at the offset. -/
def pointerTarget (offset : Nat) : Nat :=
  ((memory offset).toNat &&& 0x3F) <<< 8 ||| (memory (offset + 1)).toNat

/-- The variables of the loop over a name: the bytes of `name` up to `ptr`, and `jump_offset` once
    `jumped` is set. -/
structure NameState where
  offset : Nat
  name : List UInt8
  jumpOffset : Option Nat

/-- `sizeof(name) - 1`. -/
def maxLen : Nat := 255

variable (len : Nat)

/-- One turn of the loop of `extract_dns_name`. -/
def nameTurn (state : NameState) : Turn NameState NameState :=
  if state.offset < len then
    let length := (memory state.offset).toNat
    let next := state.offset + 1
    if length = 0 then .leave { state with offset := next }
    else if isPointer length then
      .again ⟨pointerTarget memory state.offset, state.name,
        some (state.jumpOffset.getD (next + 1))⟩
    else if maxLen ≤ state.name.length + length + 1 then .leave { state with offset := next }
    else
      .again ⟨next + length,
        state.name ++ (if state.name = [] then [] else [46]) ++ bytesAt memory next length,
        state.jumpOffset⟩
  else .leave state

/-- What `extract_dns_name` returns and where it leaves the offset. A byte `0` in a label ends the
    C string. -/
def nameResult (state : NameState) : Option (List UInt8) × Nat :=
  (if state.name = [] then none else some (state.name.takeWhile fun b => b ≠ 0),
    state.jumpOffset.getD state.offset)

/-- `extract_dns_name`, with a bound on the turns of its loop. -/
def extractDnsName (fuel offset : Nat) : Option (Option (List UInt8) × Nat) :=
  (runLoop (nameTurn memory len) fuel ⟨offset, [], none⟩).map nameResult

/-! ## Sections -/

/-- The loop over the entries of a section. `entry` reads what follows the name of an entry; a
    section with an entry without a name is `NULL`. -/
def parseEntries (fuel size : Nat) (entry : List UInt8 → Nat → Option (Json × Nat)) :
    Nat → Nat → Option (Option (List Json) × Nat)
  | 0, offset => some (some [], offset)
  | count + 1, offset =>
      if offset < len - size then
        match extractDnsName memory len fuel offset with
        | none => none
        | some (none, offset) => some (none, offset)
        | some (some name, offset) =>
            match entry name offset with
            | none => none
            | some (json, offset) =>
                match parseEntries fuel size entry count offset with
                | none => none
                | some (entries, offset) => some (entries.map fun rest => json :: rest, offset)
      else some (some [], offset)

variable [Jansson]

/-- `json_string` of bytes. -/
def stringOf (bytes : List UInt8) : Option Json := jsonString (charsOf bytes)

/-- `sizeof(dns_question_t)`. -/
def questionSize : Nat := 4

/-- A question behind its name. -/
def readQuestion (name : List UInt8) (offset : Nat) : Option (Json × Nat) :=
  some (((Json.object []).set "name" (stringOf name)
      |>.set "type" (some (.integer (u16At memory offset)))
      |>.set "class" (some (.integer (u16At memory (offset + 2))))), offset + questionSize)

/-- `parse_dns_questions`. -/
def parseDnsQuestions (fuel qdcount offset : Nat) : Option (Option (List Json) × Nat) :=
  parseEntries memory len fuel questionSize (readQuestion memory) qdcount offset

/-- `sizeof(dns_rr_t)`, with the padding behind `rdlength`. -/
def rrSize : Nat := 12

/-- The types of records whose data is a name: `NS`, `CNAME` and `PTR`. -/
def hasTarget (type : Nat) : Bool := type = 2 || type = 5 || type = 12

variable [Inet]

/-- The data of a record, if it lies in the message. -/
def readRdata (fuel type rdlength offset : Nat) (record : Json) : Option Json :=
  if offset + rdlength ≤ len then
    if type = 1 then
      some (if rdlength = 4 then
        record.set "address" (jsonString (Inet.ntop4 (bytesAt memory offset 4))) else record)
    else if type = 28 then
      some (if rdlength = 16 then
        record.set "address" (jsonString (Inet.ntop6 (bytesAt memory offset 16))) else record)
    else if hasTarget type then
      match extractDnsName memory len fuel offset with
      | none => none
      | some (none, _) => some record
      | some (some name, _) =>
          some (record.set (if type = 5 then "cname" else "target") (stringOf name))
    else some record
  else some record

/-- The fields of a record but its data. -/
def recordObject (name : List UInt8) (offset : Nat) : Json :=
  (Json.object []).set "name" (stringOf name)
    |>.set "type" (some (.integer (u16At memory offset)))
    |>.set "class" (some (.integer (u16At memory (offset + 2))))
    |>.set "ttl" (some (.integer (u32At memory (offset + 4))))
    |>.set "rdlength" (some (.integer (u16At memory (offset + 8))))

/-- A resource record behind its name. -/
def readRecord (fuel : Nat) (name : List UInt8) (offset : Nat) : Option (Json × Nat) :=
  (readRdata memory len fuel (u16At memory offset) (u16At memory (offset + 8)) (offset + rrSize)
    (recordObject memory name offset)).map fun record =>
      (record, offset + rrSize + u16At memory (offset + 8))

/-- `parse_dns_rrs`. -/
def parseDnsRrs (fuel count offset : Nat) : Option (Option (List Json) × Nat) :=
  parseEntries memory len fuel rrSize (readRecord memory len fuel) count offset

/-- A section that is not empty, put into the object of the message. -/
def addSection (parse : Nat → Nat → Option (Option (List Json) × Nat)) (key : String)
    (count : Nat) (dns : Json) (offset : Nat) : Option (Json × Nat) :=
  if 0 < count then
    match parse count offset with
    | none => none
    | some (entries, offset) => some (dns.set key (entries.map .array), offset)
  else some (dns, offset)

/-- The number of entries in the section, from the header. -/
def qdcount : Nat := u16At memory 4
def ancount : Nat := u16At memory 6
def nscount : Nat := u16At memory 8
def arcount : Nat := u16At memory 10

/-- The fields of the header. -/
def headerObject : Json :=
  let flags := u16At memory 2
  (Json.object []).set "id" (some (.integer (u16At memory 0)))
    |>.set "qr" (some (.bool (flags &&& 0x8000 ≠ 0)))
    |>.set "opcode" (some (.integer ((flags &&& 0x7800) >>> 11 : Nat)))
    |>.set "aa" (some (.bool (flags &&& 0x0400 ≠ 0)))
    |>.set "tc" (some (.bool (flags &&& 0x0200 ≠ 0)))
    |>.set "rd" (some (.bool (flags &&& 0x0100 ≠ 0)))
    |>.set "ra" (some (.bool (flags &&& 0x0080 ≠ 0)))
    |>.set "rcode" (some (.integer (flags &&& 0x000F : Nat)))
    |>.set "qdcount" (some (.integer (qdcount memory)))
    |>.set "ancount" (some (.integer (ancount memory)))
    |>.set "nscount" (some (.integer (nscount memory)))
    |>.set "arcount" (some (.integer (arcount memory)))

/-- `sizeof(dns_header_t)`. -/
def headerSize : Nat := 12

end Memory

end Dns

open Dns in
/-- `nblex_parse_dns_payload`, with a bound on the turns of the loop over each name. -/
def nblexParseDnsPayload [Jansson] [Inet] (memory : Nat → UInt8) (len fuel : Nat) :
    Option (Option Json) :=
  if len < headerSize then some none
  else
    match addSection (parseDnsQuestions memory len fuel) "questions" (qdcount memory)
        (headerObject memory) headerSize with
    | none => none
    | some (dns, offset) =>
        match addSection (parseDnsRrs memory len fuel) "answers" (ancount memory) dns offset with
        | none => none
        | some (dns, offset) =>
            match addSection (parseDnsRrs memory len fuel) "authorities" (nscount memory) dns
                offset with
            | none => none
            | some (dns, offset) =>
                (addSection (parseDnsRrs memory len fuel) "additionals" (arcount memory) dns
                  offset).map fun (dns, _) => some dns

end Nblex
