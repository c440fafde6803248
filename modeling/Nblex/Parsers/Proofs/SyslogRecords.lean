import Nblex.Misc.Numerals
import Nblex.Parsers.SyslogParser
import Mathlib.Data.Fintype.Basic
import Mathlib.Tactic.FinCases

/-!
# What is read from an RFC 3164 line

The step that is to skip the timestamp skips its month. The day is taken for the host, and the
message starts behind the first colon of the time.
-/

namespace Nblex

namespace Syslog

/-- An RFC 3164 message. The month counts from zero, and a day below ten is padded. -/
structure Record where
  pri : Nat
  month : Fin 12
  day : Nat
  zeroPadded : Bool
  hour : Nat
  min : Nat
  sec : Nat
  host : List Char
  tag : List Char
  msg : List Char

/-- The days of a month, in a leap year. -/
def daysIn (month : Fin 12) : Nat := [31, 29, 31, 30, 31, 30, 31, 31, 30, 31, 30, 31].get month

/-- A valid priority, date and time, and parts that can be told apart. -/
structure Record.Valid (record : Record) : Prop where
  pri : record.pri ≤ 191
  day : 1 ≤ record.day ∧ record.day ≤ daysIn record.month
  hour : record.hour < 24
  min : record.min < 60
  sec : record.sec < 60
  host : record.host ≠ [] ∧ ∀ c ∈ record.host, c.toNat < 128 ∧ isspace c = false ∧ c ≠ ':'
  tag : ∀ c ∈ record.tag, c.toNat < 128 ∧ c ≠ ':'
  msg : record.msg ≠ [] ∧ (∀ c ∈ record.msg, c.toNat < 128) ∧
    ∀ c ∈ record.msg.head?, isspace c = false

namespace Record

variable (record : Record)

/-- `Mon`. -/
def monthText : List Char := months.get record.month

/-- The day without the blank in front of it. -/
def dayWord : List Char :=
  if record.day < 10 ∧ record.zeroPadded = false then [Nat.digitChar record.day]
  else twoDigits record.day

/-- `DD`. -/
def dayText : List Char :=
  if record.day < 10 ∧ record.zeroPadded = false then ' ' :: record.dayWord else record.dayWord

/-- What follows the first colon of the time: `MM:SS HOST TAG: MSG`. -/
def behindHour : List Char :=
  twoDigits record.min ++ ':' :: (twoDigits record.sec ++ ' ' :: (record.host ++ ' ' ::
    (record.tag ++ ':' :: ' ' :: record.msg)))

/-- What follows the month. -/
def behindMonth : List Char :=
  record.dayText ++ ' ' :: (twoDigits record.hour ++ ':' :: record.behindHour)

/-- `<PRI>Mon DD HH:MM:SS HOST TAG: MSG`. -/
def text : List Char :=
  '<' :: (Nat.toDigits 10 record.pri ++ '>' :: (record.monthText ++ ' ' :: record.behindMonth))

/-- The time of the line, in the year the parser assumes. -/
def tm : Tm := ⟨100, record.month, record.day, record.hour, record.min, record.sec⟩

end Record

/-- The line is read back. -/
def ReadsBack [Jansson] [LocalTime] (record : Record) : Prop :=
  ∃ root, nblexParseSyslogLine record.text = some root ∧
    root.get? "hostname" = some (.string (String.ofList record.host)) ∧
    root.get? "message" = some (.string (String.ofList record.msg)) ∧
    ∃ facility severity : Int, root.get? "syslog_facility" = some (.integer facility) ∧
      root.get? "syslog_severity" = some (.integer severity) ∧
      8 * facility + severity = record.pri

/-! ## The scanning steps -/

variable {record : Record}

theorem day_lt (valid : record.Valid) : record.day < 100 := by
  have most : ∀ month : Fin 12, daysIn month < 100 := by decide
  exact valid.day.2.trans_lt (most record.month)

/-- A priority is read. -/
theorem parsePriority_digits {pri : Nat} (atMost : pri ≤ 191) (rest : List Char) :
    parsePriority ('<' :: (Nat.toDigits 10 pri ++ '>' :: rest)) = some ((pri : Int), rest) := by
  have stop : ∀ c ∈ ('>' :: rest).head?, isdigit c = false := by
    rintro c ⟨⟩
    rfl
  have read := strtol_number false (toDigits_digits pri) stop
  have value : clampLong (signed false (decimalValue (Nat.toDigits 10 pri) : Int)) = pri := by
    rw [decimalValue_toDigits, clampLong, signed, if_neg Bool.false_ne_true]
    omega
  rw [value, signText, if_neg Bool.false_ne_true, List.nil_append] at read
  have inside : ¬((pri : Int) < 0 ∨ 191 < (pri : Int)) := by omega
  simp only [parsePriority, read, if_neg inside]

/-- The first `>` closes the priority. -/
theorem dropWhile_priority (pri : Nat) (rest : List Char) :
    (Nat.toDigits 10 pri ++ '>' :: rest).dropWhile (· ≠ '>') = '>' :: rest := by
  have noClose : ∀ c ∈ Nat.toDigits 10 pri, decide (c ≠ '>') = true := by
    intro c member
    refine decide_eq_true ?_
    rintro rfl
    exact absurd ((toDigits_digits pri).2 '>' member) (by decide)
  have close : ∀ c ∈ ('>' :: rest).head?, decide (c ≠ '>') = false := by
    rintro c ⟨⟩
    rfl
  exact (takeWhile_stop noClose close).2

/-- The month is scanned, and is the first of the timestamp's words. -/
theorem monthText_scan (record : Record) (rest : List Char) :
    skipSpace (record.monthText ++ ' ' :: rest) = record.monthText ++ ' ' :: rest ∧
      scanWord 3 (record.monthText ++ ' ' :: rest) = some (record.monthText, ' ' :: rest) ∧
      wordEnd (record.monthText ++ ' ' :: rest) = ' ' :: rest ∧
      months.findIdx? (· = record.monthText) = some (record.month : Nat) := by
  unfold Record.monthText
  generalize record.month = month
  fin_cases month <;> exact ⟨rfl, rfl, rfl, rfl⟩

/-- The day is scanned behind its blanks. -/
theorem day_scan (valid : record.Valid) (rest : List Char) :
    skipSpace (' ' :: (record.dayText ++ ' ' :: rest)) = record.dayWord ++ ' ' :: rest ∧
      scanInt 2 (record.dayWord ++ ' ' :: rest) = some ((record.day : Int), ' ' :: rest) := by
  have small := day_lt valid
  have start : ∀ {d : Nat}, d < 10 → ∀ later : List Char,
      skipSpace (Nat.digitChar d :: later) = Nat.digitChar d :: later := fun below later =>
    (digitChar_start below later).1
  unfold Record.dayText Record.dayWord
  by_cases single : record.day < 10 ∧ record.zeroPadded = false
  · simp only [if_pos single, List.cons_append, List.nil_append]
    rw [skipSpace_blank, skipSpace_blank, start single.1]
    exact ⟨rfl, scanInt_oneDigit single.1 rest⟩
  · simp only [if_neg single]
    refine ⟨?_, scanInt_twoDigits small _⟩
    rw [skipSpace_blank]
    exact start (by omega) _

/-- All five conversions succeed. -/
theorem sscanf_stamp (valid : record.Valid) :
    sscanf stampFormat (record.monthText ++ ' ' :: record.behindMonth) =
      [.text record.monthText, .int record.day, .int record.hour, .int record.min,
        .int record.sec] := by
  obtain ⟨-, month, -, -⟩ := monthText_scan record record.behindMonth
  obtain ⟨skipped, day⟩ := day_scan valid (twoDigits record.hour ++ ':' :: record.behindHour)
  have hourSmall : record.hour < 100 := by
    have bound := valid.hour
    omega
  have minSmall : record.min < 100 := by
    have bound := valid.min
    omega
  have secSmall : record.sec < 100 := by
    have bound := valid.sec
    omega
  have blank : skipSpace (' ' :: (twoDigits record.hour ++ ':' :: record.behindHour)) =
      twoDigits record.hour ++ ':' :: record.behindHour := by
    rw [skipSpace_blank]
    exact (digitChar_start (by omega) _).1
  simp only [stampFormat, sscanf, month]
  rw [Record.behindMonth, skipped]
  simp only [day, blank, scanInt_twoDigits hourSmall, if_true]
  simp only [Record.behindHour, scanInt_twoDigits minSmall, scanInt_twoDigits secSmall, if_true]

/-- The step for the timestamp leaves the position at the day. -/
theorem parseStamp_text [LocalTime] (valid : record.Valid) (root : Json) :
    parseStamp root (skipSpace (record.monthText ++ ' ' :: record.behindMonth)) =
      (root.set "timestamp" (some (.integer (LocalTime.mktime record.tm))),
        record.dayWord ++ ' ' :: (twoDigits record.hour ++ ':' :: record.behindHour)) := by
  obtain ⟨start, -, behind, index⟩ := monthText_scan record record.behindMonth
  obtain ⟨skipped, -⟩ := day_scan valid (twoDigits record.hour ++ ':' :: record.behindHour)
  rw [start, parseStamp, sscanf_stamp valid]
  simp only [stampField, index, behind]
  rw [Record.behindMonth, skipped]
  rfl

theorem dayWord_digit (valid : record.Valid) : ∀ c ∈ record.dayWord, isdigit c = true := by
  unfold Record.dayWord
  split
  · next single =>
    intro c member
    rw [List.mem_singleton.mp member]
    exact digitChar_digit single.1
  · exact twoDigits_digit (day_lt valid)

/-- The day is taken for the host, and the message is what follows the hour. -/
theorem host_message (valid : record.Valid) :
    let pos := record.dayWord ++ ' ' :: (twoDigits record.hour ++ ':' :: record.behindHour)
    pos.takeWhile isHostChar = record.dayWord ∧
      messageAt (pos.dropWhile isHostChar) = record.behindHour := by
  have hourSmall : record.hour < 100 := by
    have bound := valid.hour
    omega
  have minSmall : record.min < 100 := by
    have bound := valid.min
    omega
  have hostChars : ∀ c ∈ record.dayWord, isHostChar c = true := by
    intro c member
    obtain ⟨visible, -, -, -, -⟩ := digit_plain (dayWord_digit valid c member)
    have noColon : c ≠ ':' := by
      rintro rfl
      exact absurd (dayWord_digit valid ':' member) (by decide)
    simp [isHostChar, visible, noColon]
  have blank : ∀ c ∈ (' ' :: (twoDigits record.hour ++ ':' :: record.behindHour)).head?,
      isHostChar c = false := by
    rintro c ⟨⟩
    rfl
  obtain ⟨taken, dropped⟩ := takeWhile_stop hostChars blank
  have noColon : ∀ c ∈ ' ' :: twoDigits record.hour, decide (c ≠ ':') = true := by
    intro c member
    refine decide_eq_true ?_
    rintro rfl
    rcases List.mem_cons.mp member with same | digit
    · cases same
    · exact absurd (twoDigits_digit hourSmall ':' digit) (by decide)
  have colon : ∀ c ∈ (':' :: record.behindHour).head?, decide (c ≠ ':') = false := by
    rintro c ⟨⟩
    rfl
  have atColon := (takeWhile_stop noColon colon).2
  rw [List.cons_append] at atColon
  refine ⟨taken, ?_⟩
  rw [dropped, messageAt, atColon]
  exact (digitChar_start (by omega) _).1

/-- What the parser makes of the line. -/
theorem nblexParseSyslogLine_text [Jansson] [LocalTime] (valid : record.Valid) :
    nblexParseSyslogLine record.text =
      setMessage (((priorityFields record.pri).set "timestamp"
        (some (.integer (LocalTime.mktime record.tm)))).set "hostname" (jsonString record.dayWord))
        record.behindHour := by
  have priority := parsePriority_digits valid.pri (record.monthText ++ ' ' :: record.behindMonth)
  have notEmpty : record.dayWord ≠ [] := by
    unfold Record.dayWord
    split
    · simp
    · simp [twoDigits]
  obtain ⟨host, message⟩ := host_message valid
  have old : nblexParseSyslogLine record.text = parseRfc3164 record.text := by
    obtain ⟨c, later, letter, noDigit⟩ : ∃ c later, record.monthText = c :: later ∧
        isdigit c = false := by
      unfold Record.monthText
      generalize record.month = month
      fin_cases month <;> exact ⟨_, _, rfl, rfl⟩
    have atClose := dropWhile_priority record.pri (record.monthText ++ ' ' :: record.behindMonth)
    rw [letter, List.cons_append] at atClose
    simp only [nblexParseSyslogLine, Record.text, letter, List.cons_append, atClose, noDigit,
      Bool.false_eq_true, if_false]
  rw [old, Record.text, parseRfc3164, priority]
  simp only [parseStamp_text valid, host, message, if_neg notEmpty]

/-- The message that is stored holds more than the message of the line. -/
theorem behindHour_longer (record : Record) : record.msg.length < record.behindHour.length := by
  simp only [Record.behindHour, twoDigits, List.length_append, List.length_cons]
  omega

/-- No line is read back. -/
theorem not_readsBack [Jansson] [LocalTime] (valid : record.Valid) : ¬ReadsBack record := by
  rintro ⟨root, parsed, -, message, -⟩
  have longer := behindHour_longer record
  have notEmpty : record.behindHour ≠ [] := List.ne_nil_of_length_pos (by omega)
  rw [nblexParseSyslogLine_text valid, setMessage, if_neg notEmpty] at parsed
  obtain ⟨json, stored, rfl⟩ := Option.map_eq_some_iff.mp parsed
  rw [Json.get?_set_of_isObject (by simp [priorityFields])] at message
  have same : json = .string (String.ofList record.behindHour) := by
    unfold jsonString at stored
    split at stored
    · exact (Option.some.inj stored).symm
    · cases stored
  rw [same] at message
  have texts := String.ofList_inj.mp (Json.string.inj (Option.some.inj message))
  rw [texts] at longer
  exact absurd longer (Nat.lt_irrefl _)

/-- The line of RFC 3164's own example. -/
def sampleRecord : Record where
  pri := 34
  month := 9
  day := 11
  zeroPadded := true
  hour := 22
  min := 14
  sec := 15
  host := "mymachine".toList
  tag := "su".toList
  msg := "'su root' failed for user on /dev/pts/8".toList

theorem sampleRecord_valid : sampleRecord.Valid where
  pri := by decide
  day := by decide
  hour := by decide
  min := by decide
  sec := by decide
  host := by
    show "mymachine".toList ≠ [] ∧ ∀ c ∈ "mymachine".toList, _
    simp [isspace]
  tag := by
    show ∀ c ∈ "su".toList, _
    simp
  msg := by
    show "'su root' failed for user on /dev/pts/8".toList ≠ [] ∧
      (∀ c ∈ "'su root' failed for user on /dev/pts/8".toList, _) ∧ _
    simp [isspace, sampleRecord]

theorem not_readsBack_sampleRecord : ¬@ReadsBack acceptingJansson epochTime sampleRecord :=
  @not_readsBack _ acceptingJansson epochTime sampleRecord_valid

/-- The host is the day, and the message starts with the minutes. -/
theorem sampleRecord_misread :
    @nblexParseSyslogLine acceptingJansson epochTime
        "<34>Oct 11 22:14:15 mymachine su: 'su root' failed for user on /dev/pts/8".toList =
      some (.object [("syslog_priority", .integer 34), ("syslog_facility", .integer 4),
        ("syslog_severity", .integer 2), ("timestamp", .integer 0), ("hostname", .string "11"),
        ("message", .string "14:15 mymachine su: 'su root' failed for user on /dev/pts/8")]) ∧
    ¬@ReadsBack acceptingJansson epochTime sampleRecord := by
  refine ⟨rfl, ?_⟩
  rintro ⟨root, parsed, host, -⟩
  obtain rfl := Option.some.inj parsed
  have day : "11" = "mymachine" := Json.string.inj (Option.some.inj host)
  exact absurd day (by decide)

end Syslog

end Nblex
