import Nblex.Misc.ByteMemory
import Nblex.Parsers.DnsParser

/-!
# DNS messages on the wire

The layout of a DNS message without compression, which `src/parsers/dns_parser.c` takes apart. A
name is a list of labels with their lengths before them and a zero byte behind; numbers have their
high byte first.
-/

namespace Nblex

namespace Dns

/-- A label: 1 to 63 printable bytes. -/
structure Label where
  bytes : List UInt8
  nonempty : bytes ≠ []
  short : bytes.length ≤ 63
  printable : ∀ b ∈ bytes, 0x20 ≤ b.toNat ∧ b.toNat ≤ 0x7E

/-- The labels joined by dots. -/
def dotted (labels : List Label) : List UInt8 := [46].intercalate (labels.map Label.bytes)

/-- A name other than that of the root, of at most 253 bytes with its dots. -/
structure DomainName where
  labels : List Label
  notRoot : labels ≠ []
  short : (dotted labels).length ≤ 253

/-- The text of a name. -/
def DomainName.text (name : DomainName) : List UInt8 := dotted name.labels

/-- Labels with their lengths before them. -/
def encodeLabels (labels : List Label) : List UInt8 :=
  labels.flatMap fun label => UInt8.ofNat label.bytes.length :: label.bytes

/-- A name on the wire. -/
def DomainName.encode (name : DomainName) : List UInt8 := encodeLabels name.labels ++ [0]

/-- A question. -/
structure Question where
  qname : DomainName
  qtype : UInt16
  qclass : UInt16

/-- A question on the wire. -/
def Question.encode (question : Question) : List UInt8 :=
  question.qname.encode ++ bigEndian16 question.qtype.toNat ++ bigEndian16 question.qclass.toNat

/-- A resource record. An address has its size, and the data is no name. -/
structure ResourceRecord where
  owner : DomainName
  type : UInt16
  cls : UInt16
  ttl : UInt32
  rdata : List UInt8
  fits : rdata.length ≤ 65535
  address4 : type = 1 → rdata.length = 4
  address6 : type = 28 → rdata.length = 16
  noName : hasTarget type.toNat = false

/-- What stands behind the owner of a record. -/
def ResourceRecord.encodeRest (record : ResourceRecord) : List UInt8 :=
  bigEndian16 record.type.toNat ++ bigEndian16 record.cls.toNat ++ bigEndian32 record.ttl.toNat ++
    bigEndian16 record.rdata.length ++ record.rdata

/-- A record on the wire. -/
def ResourceRecord.encode (record : ResourceRecord) : List UInt8 :=
  record.owner.encode ++ record.encodeRest

/-- The entries of a section, one behind the other. -/
def encodeQuestions (questions : List Question) : List UInt8 := questions.flatMap Question.encode

def encodeRecords (records : List ResourceRecord) : List UInt8 :=
  records.flatMap ResourceRecord.encode

/-- The header, with the numbers of entries in the four sections. -/
def encodeHeader (id flags : UInt16) (qdcount ancount nscount arcount : Nat) : List UInt8 :=
  bigEndian16 id.toNat ++ bigEndian16 flags.toNat ++ bigEndian16 qdcount ++
    bigEndian16 ancount ++ bigEndian16 nscount ++ bigEndian16 arcount

/-- A message with questions alone. -/
def encodeQuery (id flags : UInt16) (questions : List Question) : List UInt8 :=
  encodeHeader id flags questions.length 0 0 0 ++ encodeQuestions questions

end Dns

end Nblex
