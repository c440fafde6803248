import Nblex.Misc.Numerals
import Nblex.Parsers.Proofs.HttpRequests
import Mathlib.Data.List.TakeWhile

/-!
# HTTP status lines read back

The version and the code of a status line are read back. The reason is scanned like a word, so that
of a phrase its first word is left.
-/

namespace Nblex

namespace Http

/-- A status line. -/
structure StatusLine where
  version : List Char
  code : List Char
  reason : List Char

/-- The version is a word of any bytes, the code three digits, the reason printable ASCII. -/
structure StatusLine.Valid (line : StatusLine) : Prop where
  version : line.version ≠ []
  visible : ∀ c ∈ line.version, isspace c = false
  bytes : ∀ c ∈ line.version, c ≠ '\x00' ∧ c.toNat < 256
  code : line.code.length = 3
  digits : ∀ c ∈ line.code, isdigit c = true
  reason : line.reason ≠ []
  print : ∀ c ∈ line.reason, IsPrint c
  start : line.reason.head? ≠ some ' '

/-- The line as it is sent, without its end. -/
def StatusLine.text (line : StatusLine) : List Char :=
  line.version ++ ' ' :: (line.code ++ ' ' :: line.reason)

/-- The three fields are returned as they were sent. -/
def StatusLine.ReadBack (line : StatusLine) (http : Json) : Prop :=
  http.get? "version" = some (.string (String.ofList line.version)) ∧
    http.get? "status_code" = some (.integer (decimalValue line.code)) ∧
    http.get? "reason" = some (.string (String.ofList line.reason))

/-! ## The line in the payload -/

theorem bufferText_charBytes_of_lt {text : List Char} (bytes : ∀ c ∈ text, c.toNat < 256) :
    bufferText (charBytes text) = text := by
  rw [bufferText, charBytes, List.map_map]
  refine (List.map_congr_left fun c member => ?_).trans (List.map_id text)
  rw [Function.comp_apply, UInt8.toNat_ofNat', Nat.mod_eq_of_lt (bytes c member), Char.ofNat_toNat]
  rfl

theorem digit_print {c : Char} (digit : isdigit c = true) : IsPrint c := by
  have range := isdigit_range digit
  exact ⟨by omega, by omega⟩

/-- No character of the line ends the line or a C string, and all are bytes. -/
theorem StatusLine.Valid.inLine {line : StatusLine} (valid : line.Valid) :
    ∀ c ∈ line.text, isLineEnd c = false ∧ c ≠ '\x00' ∧ c.toNat < 256 := by
  have print : ∀ {c : Char}, IsPrint c → isLineEnd c = false ∧ c ≠ '\x00' ∧ c.toNat < 256 := by
    intro c isPrint
    obtain ⟨inLine, notNul⟩ := print_inLine isPrint
    exact ⟨inLine, notNul, isPrint.ascii.trans (by decide)⟩
  intro c member
  rcases List.mem_append.mp member with version | rest
  · refine ⟨?_, valid.bytes c version⟩
    have visible := valid.visible c version
    have noReturn : c ≠ '\r' := by
      rintro rfl
      cases visible
    have noNewline : c ≠ '\n' := by
      rintro rfl
      cases visible
    simp [isLineEnd, noReturn, noNewline]
  · rcases List.mem_cons.mp rest with rfl | rest
    · exact print (by decide)
    · rcases List.mem_append.mp rest with code | rest
      · exact print (digit_print (valid.digits c code))
      · rcases List.mem_cons.mp rest with rfl | reason
        · exact print (by decide)
        · exact print (valid.print c reason)

/-- What follows a line: nothing, or the end of the line. -/
def EndsLine (rest : List UInt8) : Prop := ∀ b ∈ rest.head?, b = 13 ∨ b = 10

/-- The line is cut out of the payload and copied whole. -/
theorem StatusLine.Valid.cut {line : StatusLine} (valid : line.Valid) {rest : List UInt8}
    (ends : EndsLine rest) :
    lineAt (bufferText (charBytes line.text ++ rest)) = line.text ∧
      cString line.text = line.text := by
  have stop : ∀ c ∈ (bufferText rest).head?, isLineEnd c = true := by
    intro c member
    cases rest with
    | nil => cases member
    | cons b rest =>
        rw [← Option.some.inj member]
        rcases ends b rfl with rfl | rfl
        · rfl
        · rfl
  rw [bufferText_append, bufferText_charBytes_of_lt fun c member => (valid.inLine c member).2.2]
  exact ⟨(lineAt_append (fun c member => (valid.inLine c member).1) stop).1,
    cString_eq_self fun c member => (valid.inLine c member).2.1⟩

/-- On printable text the reason is scanned like a word. -/
theorem lastWord_eq_wordAt (pos : List Char) (print : ∀ c ∈ pos, IsPrint c) :
    pos.takeWhile isLastWordChar = wordAt pos := by
  induction pos with
  | nil => rfl
  | cons c rest ih =>
      have here := print c List.mem_cons_self
      have noReturn : c ≠ '\r' := here.ne (by decide)
      have noNewline : c ≠ '\n' := here.ne (by decide)
      have same : isLastWordChar c = !isspace c := by
        simp [isLastWordChar, noReturn, noNewline]
      rw [wordAt, List.takeWhile_cons, List.takeWhile_cons, same,
        ih fun d member => print d (List.mem_cons_of_mem c member)]
      rfl

/-- The first word of the reason is not empty. -/
theorem StatusLine.Valid.firstWord {line : StatusLine} (valid : line.Valid) :
    wordAt line.reason ≠ [] := by
  cases inside : line.reason with
  | nil => exact absurd inside valid.reason
  | cons c rest =>
      have notBlank : c ≠ ' ' := by
        have start := valid.start
        rw [inside] at start
        exact fun same => start (congrArg some same)
      have first : (!isspace c) = true := by
        rw [((valid.print c (inside ▸ List.mem_cons_self)).graph notBlank).visible]
        rfl
      rw [wordAt, List.takeWhile_cons, if_pos first]
      exact List.cons_ne_nil c _

/-- A text is its own first word if there is no blank in it. -/
theorem wordAt_eq_self_iff (text : List Char) :
    wordAt text = text ↔ ∀ c ∈ text, isspace c = false := by
  rw [wordAt, List.takeWhile_eq_self_iff]
  simp

section Reading

variable [Jansson] {line : StatusLine}

/-- The fields of the line, with the first word of the reason. -/
theorem parseHttpStatusLine_text (ascii : Jansson.TakesAscii) (valid : line.Valid) :
    ∃ http, parseHttpStatusLine line.text (.object []) = some http ∧
      http.get? "version" = jsonString line.version ∧
      http.get? "status_code" = some (.integer (decimalValue line.code)) ∧
      http.get? "reason" = some (.string (String.ofList (wordAt line.reason))) := by
  have code : Digits line.code := by
    refine ⟨?_, valid.digits⟩
    intro empty
    have length := valid.code
    rw [empty] at length
    cases length
  have small : decimalValue line.code < 10 ^ 3 := valid.code ▸ decimalValue_lt valid.digits
  have stop : ∀ c ∈ (' ' :: line.reason).head?, isdigit c = false := by
    rintro c ⟨⟩
    rfl
  obtain ⟨version, afterVersion⟩ := @wordAt_append line.version
    (' ' :: (line.code ++ ' ' :: line.reason)) valid.visible rfl
  have skipCode := skipSpace_word code.1 (fun c member => (digit_plain (valid.digits c member)).1)
    (' ' :: line.reason)
  obtain ⟨digits, afterDigits⟩ := takeWhile_stop valid.digits stop
  have number := strtol_number false code stop
  have value : toInt32 (clampLong (signed false (decimalValue line.code : Int))) =
      decimalValue line.code := by
    rw [signed, if_neg Bool.false_ne_true, clampLong, min_eq_right (by omega),
      max_eq_right (by omega), toInt32_of_mem (by omega) (by omega)]
  rw [signText, if_neg Bool.false_ne_true, List.nil_append] at number
  have word : jsonString (wordAt line.reason) =
      some (.string (String.ofList (wordAt line.reason))) :=
    jsonString_ascii ascii fun c member =>
      (valid.print c (List.takeWhile_subset _ member)).ascii
  have parsed : parseHttpStatusLine line.text (.object []) = some
      ((((Json.object []).set "version" (jsonString line.version)).set "status_code"
        (some (.integer (decimalValue line.code)))).set "reason"
        (some (.string (String.ofList (wordAt line.reason))))) := by
    simp only [parseHttpStatusLine, StatusLine.text, version, afterVersion, skipCode, digits,
      afterDigits, if_neg code.1, number, value, skipSpace_print valid.print valid.start,
      lastWord_eq_wordAt _ valid.print, setWord, if_neg valid.version, if_neg valid.firstWord, word]
  refine ⟨_, parsed, ?_, ?_, ?_⟩
  · rw [Json.get?_set_of_ne (by decide), Json.get?_set_of_ne (by decide)]
    cases jsonString line.version with
    | none => rfl
    | some value => exact Json.get?_set_self [] "version" value
  · rw [Json.get?_set_of_ne (by decide)]
    exact Json.get?_set_of_isObject (Json.isObject_set _ _ _) _ _
  · exact Json.get?_set_of_isObject (by simp) _ _

/-- The line is read in front of any headers and any body. -/
theorem nblexParseHttpPayload_statusLine (ascii : Jansson.TakesAscii) (valid : line.Valid)
    {rest : List UInt8} (ends : EndsLine rest) :
    ∃ http, nblexParseHttpPayload (charBytes line.text ++ rest) false = some http ∧
      http.get? "version" = jsonString line.version ∧
      http.get? "status_code" = some (.integer (decimalValue line.code)) ∧
      http.get? "reason" = some (.string (String.ofList (wordAt line.reason))) := by
  obtain ⟨cut, copied⟩ := valid.cut ends
  obtain ⟨http, parsed, version, code, reason⟩ := parseHttpStatusLine_text ascii valid
  have notEmpty : line.text ≠ [] := by
    simp [StatusLine.text]
  refine ⟨http.set "headers" (some (parseHttpHeaders
    (nextLine (lineEnd (bufferText (charBytes line.text ++ rest)))) (.object []))), ?_, ?_⟩
  · simp only [nblexParseHttpPayload, cut, if_neg notEmpty, copied, Bool.false_eq_true, if_false,
      parsed, Option.map_some]
  · rw [Json.get?_set_of_ne (by decide), Json.get?_set_of_ne (by decide),
      Json.get?_set_of_ne (by decide)]
    exact ⟨version, code, reason⟩

end Reading

end Http

open Http in
/-- A status line is read back, with any headers and any body behind it, if and only if its reason
    is a single word and its version is text. -/
theorem nblexParseHttpPayload_readBack_iff [Jansson] (ascii : Jansson.TakesAscii)
    {line : StatusLine} (valid : line.Valid) {rest : List UInt8} (ends : EndsLine rest) :
    (∃ http, nblexParseHttpPayload (charBytes line.text ++ rest) false = some http ∧
        line.ReadBack http) ↔
      (∀ c ∈ line.reason, isspace c = false) ∧ Jansson.utf8CheckString line.version = true := by
  obtain ⟨http, payload, version, code, reason⟩ :=
    nblexParseHttpPayload_statusLine ascii valid ends
  have text : jsonString line.version = some (.string (String.ofList line.version)) ↔
      Jansson.utf8CheckString line.version = true := by
    simp [jsonString]
  have whole : some (Json.string (String.ofList (wordAt line.reason))) =
        some (.string (String.ofList line.reason)) ↔ ∀ c ∈ line.reason, isspace c = false := by
    rw [Option.some.injEq, Json.string.injEq, String.ofList_inj, wordAt_eq_self_iff]
  rw [payload]
  constructor
  · rintro ⟨returned, same, versionRead, -, reasonRead⟩
    obtain rfl := Option.some.inj same
    exact ⟨whole.mp (reason ▸ reasonRead), text.mp (version ▸ versionRead)⟩
  · rintro ⟨word, utf8⟩
    exact ⟨http, rfl, version.trans (text.mpr utf8), code, reason.trans (whole.mpr word)⟩

namespace Http

/-- A line whose reason is one word. -/
def okLine : StatusLine where
  version := "HTTP/1.1".toList
  code := "200".toList
  reason := "OK".toList

/-- A line whose reason is two words. -/
def notFoundLine : StatusLine where
  version := "HTTP/1.1".toList
  code := "404".toList
  reason := "Not Found".toList

theorem okLine_valid : okLine.Valid := by
  constructor <;> dsimp only [okLine] <;> simp [isspace, isdigit, IsPrint]

theorem notFoundLine_valid : notFoundLine.Valid := by
  constructor <;> dsimp only [notFoundLine] <;> simp [isspace, isdigit, IsPrint]

/-- The header lines behind both. -/
def sampleHeaders : List UInt8 := charBytes "\r\nServer: nblex\r\n\r\n".toList

theorem sampleHeaders_endsLine : EndsLine sampleHeaders := by
  intro b first
  simp [sampleHeaders, charBytes] at first
  exact .inl first.symm

end Http

open Http in
/-- One word is read back. -/
theorem okLine_readBack :
    ∃ http, @nblexParseHttpPayload acceptingJansson (charBytes okLine.text ++ sampleHeaders) false =
      some http ∧ okLine.ReadBack http :=
  (@nblexParseHttpPayload_readBack_iff acceptingJansson acceptingJansson_takesAscii _ okLine_valid _
    sampleHeaders_endsLine).mpr ⟨by dsimp only [okLine]; simp [isspace], rfl⟩

open Http in
/-- Of `404 Not Found` the reason is returned as `Not`. -/
theorem notFoundLine_not_readBack :
    notFoundLine.Valid ∧
      ¬∃ http, @nblexParseHttpPayload acceptingJansson
        (charBytes notFoundLine.text ++ sampleHeaders) false = some http ∧
          notFoundLine.ReadBack http := by
  refine ⟨notFoundLine_valid, ?_⟩
  rintro ⟨http, payload, -, -, reasonRead⟩
  obtain ⟨other, same, -, -, reason⟩ := @nblexParseHttpPayload_statusLine acceptingJansson _
    acceptingJansson_takesAscii notFoundLine_valid _ sampleHeaders_endsLine
  obtain rfl := Option.some.inj (payload.symm.trans same)
  have short : wordAt notFoundLine.reason = notFoundLine.reason := by
    simpa [String.ofList_inj] using reason.symm.trans reasonRead
  dsimp only [notFoundLine] at short
  simp [wordAt, isspace] at short

end Nblex
