import Nblex.Misc.Numerals
import Nblex.Parsers.NginxParser

/-!
# Access records read back

A line in the combined format is read back field by field: every step leaves the position where the
next one expects it, for all contents of the fields.
-/

namespace Nblex

namespace Nginx

/-- A record of the access log. -/
structure Record where
  addr : List Char
  user : Option (List Char)
  time : List Char
  method : List Char
  path : List Char
  protocol : List Char
  status : Nat
  bytes : Nat
  referer : List Char
  agent : List Char

/-- Printable text without quotes and backslashes. -/
def Quotable (text : List Char) : Prop := ∀ c ∈ text, IsPrint c ∧ c ≠ '"' ∧ c ≠ '\\'

/-- The contents that can be written in the format. -/
structure Record.Valid (record : Record) : Prop where
  addr : IsWord record.addr
  user : ∀ user ∈ record.user, IsWord user ∧ user.head? ≠ some '-' ∧ '[' ∉ user
  time : ∀ c ∈ record.time, IsPrint c ∧ c ≠ ']'
  method : IsWord record.method ∧ Quotable record.method
  path : IsWord record.path ∧ Quotable record.path
  protocol : IsWord record.protocol ∧ Quotable record.protocol
  status : record.status < 2 ^ 63
  bytes : record.bytes < 2 ^ 63
  referer : Quotable record.referer
  agent : Quotable record.agent

namespace Record

variable (record : Record)

/-- The user as it is written. -/
def userText : List Char := record.user.getD ['-']

/-- The request text. -/
def request : List Char := record.method ++ ' ' :: (record.path ++ ' ' :: record.protocol)

/-- `addr - user [time] "method path protocol" status bytes "referer" "agent"`. -/
def text : List Char :=
  record.addr ++ ' ' :: '-' :: ' ' :: (record.userText ++ ' ' :: '[' ::
    (record.time ++ ']' :: ' ' :: '"' :: (record.request ++ '"' :: ' ' ::
      (Nat.toDigits 10 record.status ++ ' ' :: (Nat.toDigits 10 record.bytes ++ ' ' :: '"' ::
        (record.referer ++ '"' :: ' ' :: '"' :: (record.agent ++ ['"'])))))))

end Record

/-- A text field. -/
def textField (key : String) (text : List Char) : String × Json :=
  (key, .string (String.ofList text))

/-- A field that is left out when the text is empty or `-`. -/
def optionalField (key : String) (text : List Char) : List (String × Json) :=
  if text = [] ∨ text = ['-'] then [] else [textField key text]

/-- The user, unless it is absent. -/
def Record.userField (record : Record) : List (String × Json) :=
  (record.user.map (textField "remote_user")).toList

/-- The fields of the request. -/
def Record.requestFields (record : Record) : List (String × Json) :=
  [textField "request" record.request, textField "method" record.method,
    textField "path" record.path, textField "protocol" record.protocol]

/-- The fields a record is to be read back as. -/
def Record.fields (record : Record) : List (String × Json) :=
  textField "remote_addr" record.addr :: (record.userField ++
    textField "time_local" record.time :: (record.requestFields ++
      ("status", .integer record.status) :: ("body_bytes_sent", .integer record.bytes) ::
        (optionalField "http_referer" record.referer ++
          optionalField "http_user_agent" record.agent)))

/-! ## Scanning -/

/-- A quoted text is scanned up to its closing quote. -/
theorem quotedBody_quotable {text : List Char} (quotable : Quotable text) (rest : List Char) :
    quotedBody (text ++ '"' :: rest) = (text, '"' :: rest) := by
  induction text with
  | nil => rfl
  | cons c text ih =>
      obtain ⟨-, noQuote, noBackslash⟩ := quotable c List.mem_cons_self
      have next := ih fun d member => quotable d (List.mem_cons_of_mem c member)
      rw [List.cons_append, quotedBody]
      · rw [next]
      · exact noQuote
      · intro tail isEscape
        exact absurd isEscape noBackslash

theorem quotedAt_quotable {text : List Char} (quotable : Quotable text) (rest : List Char) :
    quotedAt ('"' :: (text ++ '"' :: rest)) = (some text, rest) := by
  simp only [quotedAt, quotedBody_quotable quotable]

theorem bracketedAt_time {time : List Char} (inside : ∀ c ∈ time, c ≠ ']') (rest : List Char) :
    bracketedAt ('[' :: (time ++ ']' :: rest)) = (some time, rest) := by
  have stop : ∀ c ∈ (']' :: rest).head?, decide (c ≠ ']') = false := by
    rintro c ⟨⟩
    rfl
  obtain ⟨taken, dropped⟩ := takeWhile_stop (fun c member => decide_eq_true (inside c member)) stop
  rw [bracketedAt, dropped, taken]

/-- A part of the request is cut off at the next space. -/
theorem cutAtSpace {word : List Char} (isWord : IsWord word) (rest : List Char) :
    (word ++ ' ' :: rest).takeWhile (· ≠ ' ') = word ∧
      (word ++ ' ' :: rest).dropWhile (· ≠ ' ') = ' ' :: rest := by
  apply takeWhile_stop
  · intro c member
    refine decide_eq_true ?_
    rintro rfl
    exact absurd (isWord.visible ' ' member) (by decide)
  · rintro c ⟨⟩
    rfl

/-- Behind the blanks stands something visible. -/
theorem skipBlanks_visible (root : Json) {c : Char} (visible : isspace c = false)
    (rest : List Char) :
    skipBlanks ⟨root, ' ' :: c :: rest⟩ = ⟨root, c :: rest⟩ := by
  rw [skipBlanks, skipSpace_blank, skipSpace_of_head rest visible]

theorem skipBlanks_toDigits (root : Json) (n : Nat) (rest : List Char) :
    skipBlanks ⟨root, ' ' :: (Nat.toDigits 10 n ++ rest)⟩ = ⟨root, Nat.toDigits 10 n ++ rest⟩ := by
  have number := toDigits_digits n
  rw [skipBlanks, skipSpace_word number.1 fun c member => (digit_plain (number.2 c member)).1]

theorem parseNumber_toDigits {n : Nat} (small : n < 2 ^ 63) (key : String)
    (fields : List (String × Json)) (rest : List Char) :
    parseNumber key ⟨.object fields, Nat.toDigits 10 n ++ ' ' :: rest⟩ =
      ⟨.object (Json.setAll [(key, .integer n)] fields), ' ' :: rest⟩ := by
  have number := toDigits_digits n
  have stop : ∀ c ∈ (' ' :: rest).head?, isdigit c = false := by
    rintro c ⟨⟩
    rfl
  have read := strtol_number false number stop
  have value : clampLong (signed false (decimalValue (Nat.toDigits 10 n) : Int)) = n := by
    rw [decimalValue_toDigits, clampLong, signed, if_neg Bool.false_ne_true]
    omega
  rw [value, signText, if_neg Bool.false_ne_true, List.nil_append] at read
  have starts : atDigit (Nat.toDigits 10 n ++ ' ' :: rest) = true := by
    cases digits : Nat.toDigits 10 n with
    | nil => exact absurd digits number.1
    | cons c later => exact number.2 c (digits ▸ List.mem_cons_self)
  have shorter : (' ' :: rest).length < (Nat.toDigits 10 n ++ ' ' :: rest).length := by
    rw [List.length_append]
    have positive := List.length_pos_iff.mpr number.1
    omega
  simp only [parseNumber, starts, if_true, read, if_pos shorter]
  rfl

theorem request_quotable {record : Record} (valid : record.Valid) : Quotable record.request := by
  intro c member
  rcases List.mem_append.mp member with method | rest
  · exact valid.method.2 c method
  · rcases List.mem_cons.mp rest with rfl | rest
    · decide
    · rcases List.mem_append.mp rest with path | rest
      · exact valid.path.2 c path
      · rcases List.mem_cons.mp rest with rfl | protocol
        · decide
        · exact valid.protocol.2 c protocol

section Steps

variable [Jansson] (ascii : Jansson.TakesAscii)

include ascii

theorem setText_print {text : List Char} (print : ∀ c ∈ text, IsPrint c) (key : String)
    (fields : List (String × Json)) :
    setText (.object fields) key text = .object (Json.setAll [textField key text] fields) := by
  rw [setText, jsonString_ascii ascii fun c member => (print c member).ascii]
  rfl

theorem parseRemoteAddr_word {addr : List Char} (isWord : IsWord addr)
    (fields : List (String × Json)) (rest : List Char) :
    parseRemoteAddr ⟨.object fields, addr ++ ' ' :: rest⟩ =
      ⟨.object (Json.setAll [textField "remote_addr" addr] fields), ' ' :: rest⟩ := by
  obtain ⟨word, behind⟩ := @wordAt_append addr (' ' :: rest) isWord.visible rfl
  simp only [parseRemoteAddr, word, behind, if_neg isWord.1, setText_print ascii isWord.print]

/-- From the address to the bracket: the user is found if there is one. -/
theorem parseRemoteUser_text {record : Record} (valid : record.Valid)
    (fields : List (String × Json)) (rest : List Char) :
    skipBlanks (parseRemoteUser (skipDashes ⟨.object fields,
        ' ' :: '-' :: ' ' :: (record.userText ++ ' ' :: '[' :: rest)⟩)) =
      ⟨.object (Json.setAll record.userField fields), '[' :: rest⟩ := by
  unfold Record.userText Record.userField
  cases present : record.user with
  | none => rfl
  | some user =>
      obtain ⟨isWord, noDash, noBracket⟩ := valid.user user present
      have skipped : skipDashes ⟨.object fields,
          ' ' :: '-' :: ' ' :: (user ++ ' ' :: '[' :: rest)⟩ =
            ⟨.object fields, user ++ ' ' :: '[' :: rest⟩ := by
        obtain ⟨c, user, rfl⟩ := List.exists_cons_of_ne_nil isWord.1
        have other : c ≠ '-' := fun same => noDash (congrArg some same)
        have blank : isspace ' ' = true := rfl
        simp [skipDashes, blank, isWord.visible c List.mem_cons_self, other]
      have userChars : ∀ c ∈ user, isUserChar c = true := by
        intro c member
        have other : c ≠ '[' := fun same => noBracket (same ▸ member)
        simp [isUserChar, isWord.visible c member, other]
      have stop : ∀ c ∈ (' ' :: '[' :: rest).head?, isUserChar c = false := by
        rintro c ⟨⟩
        rfl
      obtain ⟨taken, dropped⟩ := takeWhile_stop userChars stop
      have head : (user ++ ' ' :: '[' :: rest).head? ≠ some '-' := by
        obtain ⟨c, user, rfl⟩ := List.exists_cons_of_ne_nil isWord.1
        exact noDash
      simp only [Option.getD_some, skipped, parseRemoteUser, taken, dropped,
        if_pos (And.intro isWord.1 head), setText_print ascii isWord.print,
        skipBlanks_visible _ (show isspace '[' = false from rfl)]
      rfl

theorem parseTimeLocal_time {time : List Char} (inside : ∀ c ∈ time, IsPrint c ∧ c ≠ ']')
    (fields : List (String × Json)) (rest : List Char) :
    parseTimeLocal ⟨.object fields, '[' :: (time ++ ']' :: rest)⟩ =
      ⟨.object (Json.setAll [textField "time_local" time] fields), rest⟩ := by
  simp only [parseTimeLocal, bracketedAt_time (fun c member => (inside c member).2),
    setText_print ascii (fun c member => (inside c member).1)]

/-- The request is stored whole and in its three parts. -/
theorem parseRequest_request {record : Record} (valid : record.Valid)
    (fields : List (String × Json)) (rest : List Char) :
    parseRequest ⟨.object fields, '"' :: (record.request ++ '"' :: rest)⟩ =
      ⟨.object (Json.setAll record.requestFields fields), rest⟩ := by
  have quotable := request_quotable valid
  have print : ∀ c ∈ record.request, IsPrint c := fun c member => (quotable c member).1
  obtain ⟨method, afterMethod⟩ := cutAtSpace valid.method.1 (record.path ++ ' ' :: record.protocol)
  obtain ⟨path, afterPath⟩ := cutAtSpace valid.path.1 record.protocol
  have split : ∀ root, splitRequest root record.request =
      setText (setText (setText root "method" record.method) "path" record.path) "protocol"
        record.protocol := by
    intro root
    simp only [splitRequest, Record.request, method, afterMethod, path, afterPath,
      if_neg valid.protocol.1.1]
  simp only [parseRequest, quotedAt_quotable quotable, split, setText_print ascii print,
    setText_print ascii valid.method.1.print, setText_print ascii valid.path.1.print,
    setText_print ascii valid.protocol.1.print]
  rfl

theorem parseOptional_quotable {text : List Char} (quotable : Quotable text) (key : String)
    (fields : List (String × Json)) (rest : List Char) :
    parseOptional key ⟨.object fields, '"' :: (text ++ '"' :: rest)⟩ =
      ⟨.object (Json.setAll (optionalField key text) fields), rest⟩ := by
  simp only [parseOptional, quotedAt_quotable quotable, optionalField]
  by_cases absent : text = [] ∨ text = ['-']
  · rw [if_neg (by tauto), if_pos absent]
    rfl
  · rw [if_pos (by tauto), if_neg absent,
      setText_print ascii fun c member => (quotable c member).1]

end Steps

/-- No key occurs twice. -/
theorem fields_distinct (record : Record) : (record.fields.map Prod.fst).Nodup := by
  unfold Record.fields Record.userField optionalField
  cases record.user with
  | none => split_ifs <;> simp [Record.requestFields, textField]
  | some user => split_ifs <;> simp [Record.requestFields, textField]

end Nginx

open Nginx in
/-- A record is read back with exactly its fields. -/
theorem nblexParseNginxLine_record [Jansson] (ascii : Jansson.TakesAscii) {record : Record}
    (valid : record.Valid) : nblexParseNginxLine record.text = some (.object record.fields) := by
  have notEmpty : record.text ≠ [] := by
    simp [Record.text]
  have fields : Json.setAll record.fields [] = record.fields :=
    Json.setAll_fresh (fields_distinct record)
  rw [nblexParseNginxLine, if_neg notEmpty, Record.text, parseRemoteAddr_word ascii valid.addr]
  dsimp only
  rw [parseRemoteUser_text ascii valid, parseTimeLocal_time ascii valid.time,
    skipBlanks_visible _ (by decide), parseRequest_request ascii valid, skipBlanks_toDigits,
    parseNumber_toDigits valid.status, skipBlanks_toDigits,
    parseNumber_toDigits valid.bytes, skipBlanks_visible _ (by decide),
    parseOptional_quotable ascii valid.referer, skipBlanks_visible _ (by decide),
    parseOptional_quotable ascii valid.agent, ← fields, Record.fields]
  simp only [Json.setAll, List.foldl_cons, List.foldl_append, List.foldl_nil]

namespace Nginx

/-- A record with a user and an agent, and no referer. -/
def sampleRecord : Record where
  addr := "10.0.0.1".toList
  user := some "ann-b".toList
  time := "09/Nov/2025 [x".toList
  method := "GET".toList
  path := "/a-b".toList
  protocol := "HTTP/1.1".toList
  status := 200
  bytes := 0
  referer := "-".toList
  agent := "curl [x] - y".toList

theorem sampleRecord_valid : sampleRecord.Valid where
  addr := by
    show IsWord "10.0.0.1".toList
    simp [IsWord, IsGraph]
  user := by
    rintro user ⟨⟩
    simp [IsWord, IsGraph]
  time := by
    show ∀ c ∈ "09/Nov/2025 [x".toList, _
    simp [IsPrint]
  method := by
    show IsWord "GET".toList ∧ Quotable "GET".toList
    simp [IsWord, IsGraph, Quotable, IsPrint]
  path := by
    show IsWord "/a-b".toList ∧ Quotable "/a-b".toList
    simp [IsWord, IsGraph, Quotable, IsPrint]
  protocol := by
    show IsWord "HTTP/1.1".toList ∧ Quotable "HTTP/1.1".toList
    simp [IsWord, IsGraph, Quotable, IsPrint]
  status := by decide
  bytes := by decide
  referer := by
    show Quotable "-".toList
    simp [Quotable, IsPrint]
  agent := by
    show Quotable "curl [x] - y".toList
    simp [Quotable, IsPrint]

theorem nblexParseNginxLine_sampleRecord :
    @nblexParseNginxLine acceptingJansson sampleRecord.text = some (.object sampleRecord.fields) :=
  @nblexParseNginxLine_record acceptingJansson acceptingJansson_takesAscii _ sampleRecord_valid

end Nginx

end Nblex
