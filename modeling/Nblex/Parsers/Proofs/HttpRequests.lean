import Nblex.Parsers.HttpParser
import Mathlib.Data.List.Nodup

/-!
# HTTP requests read back

A request that is written as a request line, header lines and an empty line is read back exactly,
whatever bytes follow as its body.
-/

namespace Nblex

namespace Http

/-- A header as it is sent. -/
structure Header where
  name : List Char
  value : List Char

/-- The name holds no colon, and the value does not start with a space. -/
structure Header.Valid (header : Header) : Prop where
  notEmpty : header.name ≠ []
  name : ∀ c ∈ header.name, IsPrint c ∧ c ≠ ':'
  value : ∀ c ∈ header.value, IsPrint c
  start : header.value.head? ≠ some ' '

/-- A request without its body. -/
structure Request where
  method : List Char
  uri : List Char
  version : List Char
  headers : List Header

/-- The name a header is stored under. -/
def Header.key (header : Header) : List Char := header.name.map Char.toLower

/-- Words, and headers whose names differ in more than case. -/
structure Request.Valid (request : Request) : Prop where
  method : IsWord request.method
  uri : IsWord request.uri
  version : IsWord request.version
  headers : ∀ header ∈ request.headers, header.Valid
  distinct : (request.headers.map Header.key).Nodup

/-- The end of a line. -/
def crlf : List Char := ['\r', '\n']

/-- A header line without its end. -/
def Header.line (header : Header) : List Char := header.name ++ ':' :: ' ' :: header.value

/-- The header lines and the empty line. -/
def headerText (headers : List Header) : List Char :=
  headers.flatMap (fun header => header.line ++ crlf) ++ crlf

/-- The request line without its end. -/
def Request.line (request : Request) : List Char :=
  request.method ++ ' ' :: (request.uri ++ ' ' :: request.version)

/-- The request as it is sent. -/
def Request.text (request : Request) : List Char :=
  request.line ++ (crlf ++ headerText request.headers)

/-- A text as bytes. -/
def charBytes (text : List Char) : List UInt8 := text.map fun c => UInt8.ofNat c.toNat

/-- The entry of a header. -/
def Header.entry (header : Header) : String × Json :=
  (String.ofList header.key, .string (String.ofList header.value))

/-- What the dissector is to return. -/
def Request.json (request : Request) : Json :=
  .object [("method", .string (String.ofList request.method)),
    ("uri", .string (String.ofList request.uri)),
    ("version", .string (String.ofList request.version)),
    ("headers", .object (request.headers.map Header.entry))]

/-! ## Characters and bytes -/

/-- A printable character ends neither a line nor a C string. -/
theorem print_inLine {c : Char} (print : IsPrint c) :
    isLineEnd c = false ∧ c ≠ '\x00' := by
  refine ⟨?_, print.ne (by decide)⟩
  have noReturn : c ≠ '\r' := print.ne (by decide)
  have noNewline : c ≠ '\n' := print.ne (by decide)
  simp [isLineEnd, noReturn, noNewline]

theorem bufferText_append (front back : List UInt8) :
    bufferText (front ++ back) = bufferText front ++ bufferText back := List.map_append

theorem bufferText_charBytes {text : List Char} (ascii : ∀ c ∈ text, c.toNat < 128) :
    bufferText (charBytes text) = text := by
  rw [bufferText, charBytes, List.map_map]
  refine (List.map_congr_left fun c member => ?_).trans (List.map_id text)
  have small : c.toNat < 2 ^ 8 := (ascii c member).trans (by decide)
  rw [Function.comp_apply, UInt8.toNat_ofNat', Nat.mod_eq_of_lt small, Char.ofNat_toNat]
  rfl

/-- A text without a NUL is a C string as it stands. -/
theorem cString_eq_self {text : List Char} (noNul : ∀ c ∈ text, c ≠ '\x00') :
    cString text = text := by
  have kept := @takeWhile_stop (fun c => decide (c ≠ '\x00')) text []
    (fun c member => decide_eq_true (noNul c member)) nofun
  rw [List.append_nil] at kept
  exact kept.1

theorem cString_print {text : List Char} (print : ∀ c ∈ text, IsPrint c) : cString text = text :=
  cString_eq_self fun c member => (print_inLine (print c member)).2

theorem toLower_print {c : Char} (print : IsPrint c) : IsPrint c.toLower := by
  unfold Char.toLower
  split
  · next upper =>
    have atMost : c.toNat ≤ 90 := upper.2
    have moved : (c.val + ('a'.val - 'A'.val)).toNat = c.toNat + 32 := by
      rw [UInt32.toNat_add]
      exact Nat.mod_eq_of_lt (by show c.toNat + 32 < 2 ^ 32; omega)
    have lower := print.1
    constructor
    · show 32 ≤ (c.val + ('a'.val - 'A'.val)).toNat
      omega
    · show (c.val + ('a'.val - 'A'.val)).toNat < 127
      omega
  · exact print

/-! ## Lines -/

/-- A line is cut in front of its end. -/
theorem lineAt_append {line rest : List Char} (inLine : ∀ c ∈ line, isLineEnd c = false)
    (ends : ∀ c ∈ rest.head?, isLineEnd c = true) :
    lineAt (line ++ rest) = line ∧ lineEnd (line ++ rest) = rest := by
  have all : ∀ c ∈ line, (!isLineEnd c) = true := by
    intro c member
    rw [inLine c member]
    rfl
  have stop : ∀ c ∈ rest.head?, (!isLineEnd c) = false := by
    intro c member
    rw [ends c member]
    rfl
  exact takeWhile_stop all stop

/-- Behind a line of printable characters stands the next one. -/
theorem lineAt_crlf {line : List Char} (print : ∀ c ∈ line, IsPrint c) (rest : List Char) :
    lineAt (line ++ (crlf ++ rest)) = line ∧
      nextLine (lineEnd (line ++ (crlf ++ rest))) = rest := by
  have ends : ∀ c ∈ (crlf ++ rest).head?, isLineEnd c = true := by
    rintro c ⟨⟩
    rfl
  obtain ⟨taken, behind⟩ := lineAt_append (fun c member => (print_inLine (print c member)).1) ends
  refine ⟨taken, ?_⟩
  rw [behind]
  rfl

theorem lastWordChar_graph {c : Char} (graph : IsGraph c) : isLastWordChar c = true := by
  have noReturn : c ≠ '\r' := graph.print.ne (by decide)
  have noNewline : c ≠ '\n' := graph.print.ne (by decide)
  simp [isLastWordChar, graph.visible, noReturn, noNewline]

section Reading

variable [Jansson] {request : Request}

/-- The request line is read back. -/
theorem parseHttpRequestLine_line (ascii : Jansson.TakesAscii) (valid : request.Valid) :
    parseHttpRequestLine request.line (.object []) = some (.object
      [("method", .string (String.ofList request.method)),
        ("uri", .string (String.ofList request.uri)),
        ("version", .string (String.ofList request.version))]) := by
  have asciiWord : ∀ {word : List Char}, IsWord word →
      jsonString word = some (.string (String.ofList word)) := fun token =>
    jsonString_ascii ascii fun c member => (token.print c member).ascii
  obtain ⟨method, afterMethod⟩ := @wordAt_append request.method
    (' ' :: (request.uri ++ ' ' :: request.version)) valid.method.visible rfl
  obtain ⟨uri, afterUri⟩ := @wordAt_append request.uri (' ' :: request.version)
    valid.uri.visible rfl
  have skipUri := skipSpace_word valid.uri.1 valid.uri.visible (' ' :: request.version)
  have skipVersion := skipSpace_word valid.version.1 valid.version.visible []
  have version := @takeWhile_stop isLastWordChar request.version []
    (fun c member => lastWordChar_graph (valid.version.2 c member)) nofun
  rw [List.append_nil] at skipVersion version
  simp only [parseHttpRequestLine, Request.line, method, afterMethod, if_neg valid.method.1,
    skipUri,
    uri, afterUri, skipVersion, version.1, setWord, if_neg valid.uri.1, if_neg valid.version.1,
    asciiWord valid.method, asciiWord valid.uri, asciiWord valid.version]
  rfl

/-- A header line is stored under its lower-cased name. -/
theorem setHeader_line (ascii : Jansson.TakesAscii) {header : Header} (valid : header.Valid)
    (fields : List (String × Json)) :
    setHeader header.line (.object fields) =
      .object (Json.setField fields header.entry.1 header.entry.2) := by
  have all : ∀ c ∈ header.name, decide (c ≠ ':') = true := fun c member =>
    decide_eq_true (valid.name c member).2
  have stop : ∀ c ∈ (':' :: ' ' :: header.value).head?, decide (c ≠ ':') = false := by
    rintro c ⟨⟩
    rfl
  obtain ⟨name, value⟩ := takeWhile_stop all stop
  have lowered : ∀ c ∈ header.key, IsPrint c := by
    intro c member
    obtain ⟨d, inside, rfl⟩ := List.mem_map.mp member
    exact toLower_print (valid.name d inside).1
  have start := skipSpace_print valid.value valid.start
  rw [setHeader, Header.line]
  simp only [name, value]
  rw [← Header.key, cString_print lowered,
    if_pos (ascii _ fun c member => (lowered c member).ascii),
    start, cString_print valid.value,
    jsonString_ascii ascii fun c member => (valid.value c member).ascii]
  rfl

omit [Jansson] in
theorem line_print {header : Header} (valid : header.Valid) : ∀ c ∈ header.line, IsPrint c := by
  intro c member
  rcases List.mem_append.mp member with name | rest
  · exact (valid.name c name).1
  · rcases List.mem_cons.mp rest with rfl | rest
    · decide
    · rcases List.mem_cons.mp rest with rfl | value
      · decide
      · exact valid.value c value

/-- The header section is read up to the empty line. -/
theorem parseHttpHeaders_text (ascii : Jansson.TakesAscii) {headers : List Header}
    (valid : ∀ header ∈ headers, header.Valid) (body : List Char) :
    ∀ fields : List (String × Json),
      parseHttpHeaders (headerText headers ++ body) (.object fields) =
        .object (Json.setAll (headers.map Header.entry) fields) := by
  induction headers with
  | nil =>
      intro fields
      have empty : lineAt (headerText [] ++ body) = [] := rfl
      rw [parseHttpHeaders, dif_pos empty]
      rfl
  | cons header headers ih =>
      intro fields
      have here := valid header List.mem_cons_self
      have split : headerText (header :: headers) ++ body =
          header.line ++ (crlf ++ (headerText headers ++ body)) := by
        simp [headerText]
      obtain ⟨line, next⟩ := lineAt_crlf (line_print here) (headerText headers ++ body)
      have notEmpty : lineAt (header.line ++ (crlf ++ (headerText headers ++ body))) ≠ [] := by
        rw [line]
        simp [Header.line]
      rw [split, parseHttpHeaders, dif_neg notEmpty, next, line, setHeader_line ascii here]
      exact ih (fun other member => valid other (List.mem_cons_of_mem header member)) _

end Reading

theorem Request.line_print {request : Request} (valid : request.Valid) :
    ∀ c ∈ request.line, IsPrint c := by
  intro c member
  rcases List.mem_append.mp member with method | rest
  · exact (valid.method.2 c method).print
  · rcases List.mem_cons.mp rest with rfl | rest
    · decide
    · rcases List.mem_append.mp rest with uri | rest
      · exact (valid.uri.2 c uri).print
      · rcases List.mem_cons.mp rest with rfl | version
        · decide
        · exact (valid.version.2 c version).print

theorem text_ascii {request : Request} (valid : request.Valid) :
    ∀ c ∈ request.text, c.toNat < 128 := by
  have ends : ∀ c ∈ crlf, c.toNat < 128 := by simp [crlf]
  intro c member
  rcases List.mem_append.mp member with line | rest
  · exact (Request.line_print valid c line).ascii
  · rcases List.mem_append.mp rest with ended | rest
    · exact ends c ended
    · rcases List.mem_append.mp rest with header | ended
      · obtain ⟨header, inside, member⟩ := List.mem_flatMap.mp header
        rcases List.mem_append.mp member with line | ended
        · exact (line_print (valid.headers header inside) c line).ascii
        · exact ends c ended
      · exact ends c ended

/-- Names that differ in more than case are stored under different keys. -/
theorem entries_distinct {request : Request} (valid : request.Valid) :
    ((request.headers.map Header.entry).map Prod.fst).Nodup := by
  have keys : (request.headers.map Header.entry).map Prod.fst =
      (request.headers.map Header.key).map String.ofList := by
    rw [List.map_map, List.map_map]
    rfl
  rw [keys]
  exact List.Nodup.map (fun _ _ same => String.ofList_inj.mp same) valid.distinct

end Http

open Http in
/-- A request is read back: its method, its URI, its version and its headers in their order,
    whatever the body. -/
theorem nblexParseHttpPayload_request [Jansson] (ascii : Jansson.TakesAscii) {request : Request}
    (valid : request.Valid) (body : List UInt8) :
    nblexParseHttpPayload (charBytes request.text ++ body) true = some request.json := by
  have whole : bufferText (charBytes request.text ++ body) =
      request.line ++ (crlf ++ (headerText request.headers ++ bufferText body)) := by
    rw [bufferText_append, bufferText_charBytes (text_ascii valid), Request.text]
    simp only [List.append_assoc]
  obtain ⟨line, next⟩ := lineAt_crlf (Request.line_print valid)
    (headerText request.headers ++ bufferText body)
  have notEmpty : request.line ≠ [] := by
    simp [Request.line]
  have headers : Json.setAll (request.headers.map Header.entry) [] =
      request.headers.map Header.entry := Json.setAll_fresh (entries_distinct valid)
  simp only [nblexParseHttpPayload, whole, line, next, if_neg notEmpty, if_true,
    cString_print (Request.line_print valid), parseHttpRequestLine_line ascii valid,
    Option.map_some,
    parseHttpHeaders_text ascii valid.headers, headers]
  rfl

namespace Http

/-- A request with two headers; a colon and a further header stand in a value. -/
def sampleRequest : Request where
  method := "GET".toList
  uri := "/a?b=c:d".toList
  version := "HTTP/1.1".toList
  headers := [⟨"Host".toList, "example:80".toList⟩, ⟨"X-Note".toList, "Host: other ".toList⟩]

theorem sampleRequest_valid : sampleRequest.Valid where
  method := by simp [sampleRequest, IsWord, IsGraph]
  uri := by simp [sampleRequest, IsWord, IsGraph]
  version := by simp [sampleRequest, IsWord, IsGraph]
  headers := by
    intro header member
    simp only [sampleRequest, List.mem_cons, List.not_mem_nil, or_false] at member
    rcases member with rfl | rfl
    · exact ⟨by simp, by simp [IsPrint], by simp [IsPrint], by simp⟩
    · exact ⟨by simp, by simp [IsPrint], by simp [IsPrint], by simp⟩
  distinct := by decide

end Http

open Http in
/-- The body looks like a header. -/
theorem nblexParseHttpPayload_sampleRequest :
    @nblexParseHttpPayload acceptingJansson
      (charBytes sampleRequest.text ++ charBytes "Host: body".toList) true =
        some sampleRequest.json :=
  @nblexParseHttpPayload_request acceptingJansson acceptingJansson_takesAscii _ sampleRequest_valid
    _

end Nblex
