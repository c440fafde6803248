import Nblex.Misc.Calendar
import Nblex.Parsers.Proofs.SyslogRecords

/-!
# The instant of an RFC 5424 line

The scan for the fraction of the second starts at the date and stops at its first hyphen, and the
offset is not read at all. So the time that is stored is the one of the text just in case the
fraction and the offset are zero; and the second before 1970, for which `mktime` gives what stands
for a failure, is not stored.
-/

namespace Nblex

namespace Syslog

/-! ## Lines -/

/-- An offset from UTC. -/
structure Offset where
  west : Bool
  hours : Fin 24
  minutes : Fin 60

/-- The offset in seconds. -/
def Offset.seconds (offset : Offset) : Int :=
  signed offset.west (3600 * (offset.hours : Nat) + 60 * (offset.minutes : Nat) : Int)

/-- `+HH:MM` or `-HH:MM`. -/
def Offset.text (offset : Offset) : List Char :=
  (if offset.west then '-' else '+') :: (twoDigits offset.hours ++ ':' :: twoDigits offset.minutes)

/-- A timestamp. The fraction is empty if there is none, and without an offset the time is
    followed by `Z`. -/
structure Stamp where
  date : Date
  hour : Fin 24
  min : Fin 60
  sec : Fin 60
  fraction : List Char
  offset : Option Offset
  fourDigitYear : date.year < 10000
  fractionDigits : fraction.length ≤ 6 ∧ ∀ c ∈ fraction, isdigit c = true

namespace Stamp

variable (stamp : Stamp)

/-- `YYYY-MM-DDTHH:MM:SS` in front of a text. -/
def timeText (rest : List Char) : List Char :=
  fourDigits stamp.date.year ++ '-' :: (twoDigits (stamp.date.month + 1) ++ '-' ::
    (twoDigits stamp.date.day ++ 'T' :: (twoDigits stamp.hour ++ ':' ::
      (twoDigits stamp.min ++ ':' :: (twoDigits stamp.sec ++ rest)))))

/-- The fraction with its dot. -/
def fractionText : List Char := if stamp.fraction = [] then [] else '.' :: stamp.fraction

/-- `Z` or the offset. -/
def offsetText : List Char :=
  match stamp.offset with
  | none => ['Z']
  | some offset => offset.text

/-- The fraction in millionths of a second. -/
def micros : Nat := decimalValue stamp.fraction * 10 ^ (6 - stamp.fraction.length)

/-- The offset in seconds. -/
def offsetSeconds : Int := (stamp.offset.map Offset.seconds).getD 0

/-- The seconds from the start of 1970 to the date and the time of day. -/
def seconds : Int :=
  86400 * stamp.date.number + 3600 * (stamp.hour : Nat) + 60 * (stamp.min : Nat) + (stamp.sec : Nat)

/-- The instant in UTC, in microseconds. -/
def instant : Int := (stamp.seconds - stamp.offsetSeconds) * 10 ^ 6 + stamp.micros

/-- The date and the time of day as the parser fills them in. -/
def tm : Tm :=
  ⟨stamp.date.year - 1900, (stamp.date.month : Nat), stamp.date.day, (stamp.hour : Nat),
    (stamp.min : Nat), (stamp.sec : Nat)⟩

end Stamp

/-- A line of RFC 5424, with all that follows the timestamp as its message. -/
structure Line where
  pri : Fin 192
  stamp : Stamp
  msg : List Char

/-- What follows the date and the time of day. -/
def Line.behindTime (line : Line) : List Char :=
  line.stamp.fractionText ++ (line.stamp.offsetText ++ ' ' :: line.msg)

/-- `<PRI>1 TIMESTAMP MSG`. -/
def Line.text (line : Line) : List Char :=
  '<' :: (Nat.toDigits 10 line.pri ++ '>' :: '1' :: ' ' :: line.stamp.timeText line.behindTime)

/-- In UTC `mktime` counts the seconds of the calendar. -/
def IsUtc [LocalTime] : Prop := ∀ stamp : Stamp, LocalTime.mktime stamp.tm = stamp.seconds

/-- The fields of the object denote the instant of the line, and the message is that of the line. -/
def Denotes [Jansson] [LocalTime] (line : Line) : Prop :=
  ∃ root, nblexParseSyslogLine line.text = some root ∧
    (∃ timestamp usec : Int, root.get? "timestamp" = some (.integer timestamp) ∧
      (root.get? "timestamp_usec").getD (.integer 0) = .integer usec ∧
      timestamp * 10 ^ 6 + usec = line.stamp.instant) ∧
    root.get? "message" = some (.string (String.ofList line.msg))

/-! ## Reading the timestamp -/

section Reading

variable (stamp : Stamp) (rest : List Char)

/-- All six conversions succeed. -/
theorem sscanf_iso : sscanf isoFormat (stamp.timeText rest) =
    [.int stamp.date.year, .int (stamp.date.month + 1 : Nat), .int stamp.date.day,
      .int (stamp.hour : Nat), .int (stamp.min : Nat), .int (stamp.sec : Nat)] := by
  have month : (stamp.date.month : Nat) + 1 < 100 := by omega
  have day : stamp.date.day < 100 := stamp.date.day_le.trans_lt (by decide)
  have hour : (stamp.hour : Nat) < 100 := by omega
  have min : (stamp.min : Nat) < 100 := by omega
  have sec : (stamp.sec : Nat) < 100 := by omega
  simp only [isoFormat, Stamp.timeText, sscanf, scanInt_fourDigits stamp.fourDigitYear,
    scanInt_twoDigits month, scanInt_twoDigits day, scanInt_twoDigits hour, scanInt_twoDigits min,
    scanInt_twoDigits sec, if_true]

/-- The scan for the fraction ends at the first hyphen of the date. -/
theorem microseconds_timeText : microseconds (stamp.timeText rest) = 0 := by
  have digits : ∀ c ∈ fourDigits stamp.date.year,
      (c ≠ 'Z' && c ≠ '+' && c ≠ '-' && c ≠ '.') = true := by
    intro c member
    have digit := fourDigits_digit stamp.fourDigitYear c member
    obtain ⟨-, noMinus, noPlus, -, noDot⟩ := digit_plain digit
    have noZ : c ≠ 'Z' := by
      rintro rfl
      exact absurd digit (by decide)
    simp [noMinus, noPlus, noDot, noZ]
  have stop : ∀ later : List Char, ∀ c ∈ ('-' :: later).head?,
      (c ≠ 'Z' && c ≠ '+' && c ≠ '-' && c ≠ '.') = false := by
    rintro later c ⟨⟩
    decide
  rw [microseconds, Stamp.timeText, (takeWhile_stop digits (stop _)).2]
  split
  · next dot => exact absurd (List.cons.inj dot).1 (by decide)
  · rfl

end Reading

theorem digit_ne_blank {c : Char} (digit : isdigit c = true) : c ≠ ' ' := by
  rintro rfl
  exact absurd digit (by decide)

theorem Offset.text_noBlank (offset : Offset) : ∀ c ∈ offset.text, c ≠ ' ' := by
  have two : ∀ {n : Nat}, n < 100 → ∀ c ∈ twoDigits n, c ≠ ' ' := fun small c member =>
    digit_ne_blank (twoDigits_digit small c member)
  rw [Offset.text, List.forall_mem_cons, List.forall_mem_append, List.forall_mem_cons]
  refine ⟨?_, two (by omega), by decide, two (by omega)⟩
  cases offset.west <;> decide

/-- There is no blank in a timestamp. -/
theorem stamp_noBlank (stamp : Stamp) :
    ∀ c ∈ stamp.timeText (stamp.fractionText ++ stamp.offsetText), c ≠ ' ' := by
  have two : ∀ {n : Nat}, n < 100 → ∀ c ∈ twoDigits n, c ≠ ' ' := fun small c member =>
    digit_ne_blank (twoDigits_digit small c member)
  have year : ∀ c ∈ fourDigits stamp.date.year, c ≠ ' ' := fun c member =>
    digit_ne_blank (fourDigits_digit stamp.fourDigitYear c member)
  have fraction : ∀ c ∈ stamp.fractionText, c ≠ ' ' := by
    unfold Stamp.fractionText
    split
    · exact nofun
    · rw [List.forall_mem_cons]
      exact ⟨by decide, fun c member => digit_ne_blank (stamp.fractionDigits.2 c member)⟩
  have offset : ∀ c ∈ stamp.offsetText, c ≠ ' ' := by
    unfold Stamp.offsetText
    split
    · exact List.forall_mem_singleton.mpr (by decide)
    · exact Offset.text_noBlank _
  have day : stamp.date.day < 100 := stamp.date.day_le.trans_lt (by decide)
  simp only [Stamp.timeText, List.forall_mem_append, List.forall_mem_cons]
  exact ⟨year, by decide, two (by omega), by decide, two day, by decide, two (by omega), by decide,
    two (by omega), by decide, two (by omega), fraction, offset⟩

/-- The timestamp ends at the blank in front of the message. -/
theorem dropWhile_stamp (line : Line) :
    (line.stamp.timeText line.behindTime).dropWhile (· ≠ ' ') = ' ' :: line.msg := by
  have whole : line.stamp.timeText line.behindTime =
      line.stamp.timeText (line.stamp.fractionText ++ line.stamp.offsetText) ++
        ' ' :: line.msg := by
    simp only [Stamp.timeText, Line.behindTime, List.append_assoc, List.cons_append]
  have visible : ∀ c ∈ line.stamp.timeText (line.stamp.fractionText ++ line.stamp.offsetText),
      decide (c ≠ ' ') = true := fun c member => decide_eq_true (stamp_noBlank line.stamp c member)
  have blank : ∀ c ∈ (' ' :: line.msg).head?, decide (c ≠ ' ') = false := by
    rintro c ⟨⟩
    rfl
  rw [whole, (takeWhile_stop visible blank).2]

section Parse

variable [Jansson] [LocalTime]

omit [Jansson] [LocalTime] in
/-- The object in front of the timestamp. -/
def versionFields (pri : Int) : Json :=
  (priorityFields pri).set "syslog_version" (some (.integer 1))

/-- The object with the timestamp. -/
def stampedFields (line : Line) : Json :=
  if LocalTime.mktime line.stamp.tm = -1 then versionFields (line.pri : Nat)
  else (versionFields (line.pri : Nat)).set "timestamp"
    (some (.integer (LocalTime.mktime line.stamp.tm)))

/-- What the parser makes of a line. -/
theorem nblexParseSyslogLine_line (line : Line) :
    nblexParseSyslogLine line.text = setMessage (stampedFields line) (skipSpace line.msg) := by
  have priority := parsePriority_digits (show (line.pri : Nat) ≤ 191 by omega)
    ('1' :: ' ' :: line.stamp.timeText line.behindTime)
  have new : nblexParseSyslogLine line.text = parseRfc5424 line.text := by
    have version : isdigit '1' = true := by decide
    simp only [nblexParseSyslogLine, Line.text, dropWhile_priority, version, if_true]
  have version : isdigit '1' = true := by decide
  have tm : (⟨(line.stamp.date.year : Int) - 1900, ((line.stamp.date.month + 1 : Nat) : Int) - 1,
      line.stamp.date.day, (line.stamp.hour : Nat), (line.stamp.min : Nat),
      (line.stamp.sec : Nat)⟩ : Tm) = line.stamp.tm := by
    rw [Stamp.tm, Nat.cast_add_one, Int.add_sub_cancel]
  have stamped : ∀ root, parseIsoStamp root (line.stamp.timeText line.behindTime) =
      (if LocalTime.mktime line.stamp.tm = -1 then root
        else root.set "timestamp" (some (.integer (LocalTime.mktime line.stamp.tm))),
        skipSpace line.msg) := by
    intro root
    simp only [parseIsoStamp, sscanf_iso, tm, microseconds_timeText, Nat.lt_irrefl, if_false,
      dropWhile_stamp, skipSpace_blank]
  rw [new, Line.text]
  simp only [parseRfc5424, priority, version, if_true, stamped]
  rfl

omit [Jansson] in
theorem stampedFields_isObject (line : Line) : (stampedFields line).isObject = true := by
  unfold stampedFields
  split <;> simp [versionFields, priorityFields]

omit [Jansson] in
/-- No fraction is stored, and a timestamp unless `mktime` gives `-1`. -/
theorem stampedFields_get? (line : Line) :
    (stampedFields line).get? "timestamp_usec" = none ∧
      (stampedFields line).get? "timestamp" =
        if LocalTime.mktime line.stamp.tm = -1 then none
        else some (.integer (LocalTime.mktime line.stamp.tm)) := by
  unfold stampedFields
  split
  · exact ⟨rfl, rfl⟩
  · exact ⟨rfl, rfl⟩

end Parse

/-! ## The instant -/

/-- A fraction is less than a second. -/
theorem Stamp.micros_lt (stamp : Stamp) : stamp.micros < 10 ^ 6 := by
  obtain ⟨short, digits⟩ := stamp.fractionDigits
  have small := decimalValue_lt digits
  have scaled : stamp.micros < 10 ^ stamp.fraction.length * 10 ^ (6 - stamp.fraction.length) :=
    Nat.mul_lt_mul_of_pos_right small (Nat.pow_pos (by decide))
  rw [← Nat.pow_add, Nat.add_sub_cancel' short] at scaled
  exact scaled

theorem Stamp.micros_eq_zero_iff (stamp : Stamp) :
    stamp.micros = 0 ↔ decimalValue stamp.fraction = 0 := by
  rw [micros, Nat.mul_eq_zero, or_iff_left]
  exact (Nat.pow_pos (by decide)).ne'

/-- The whole seconds denote the instant just in case there is nothing to add to them. -/
theorem Stamp.seconds_instant_iff (stamp : Stamp) :
    stamp.seconds * 10 ^ 6 = stamp.instant ↔
      decimalValue stamp.fraction = 0 ∧ stamp.offsetSeconds = 0 := by
  have small := stamp.micros_lt
  rw [← stamp.micros_eq_zero_iff, instant]
  constructor
  · intro same
    constructor
    · omega
    · omega
  · rintro ⟨noFraction, noOffset⟩
    omega

section Denotes

variable [Jansson] [LocalTime]

omit [LocalTime] in
/-- The message changes no other field. -/
theorem setMessage_other {root stored : Json} {pos : List Char}
    (set : setMessage root pos = some stored) {key : String} (other : "message" ≠ key) :
    stored.get? key = root.get? key := by
  unfold setMessage at set
  split at set
  · rw [Option.some.inj set]
  · obtain ⟨message, -, rfl⟩ := Option.map_eq_some_iff.mp set
    exact Json.get?_set_of_ne other root _

omit [LocalTime] in
/-- The message is stored just in case it is not empty, does not start with a blank and is UTF-8. -/
theorem setMessage_iff {root : Json} (object : root.isObject = true)
    (noMessage : root.get? "message" = none) (msg : List Char) :
    (∃ stored, setMessage root (skipSpace msg) = some stored ∧
      stored.get? "message" = some (.string (String.ofList msg))) ↔
    msg ≠ [] ∧ (∀ c ∈ msg.head?, isspace c = false) ∧ Jansson.utf8CheckString msg = true := by
  constructor
  · rintro ⟨stored, set, found⟩
    unfold setMessage at set
    split at set
    · rw [← Option.some.inj set, noMessage] at found
      cases found
    · next notEmpty =>
      obtain ⟨message, made, rfl⟩ := Option.map_eq_some_iff.mp set
      rw [Json.get?_set_of_isObject object] at found
      unfold jsonString at made
      split at made
      · next valid =>
        rw [← Option.some.inj made] at found
        have same := String.ofList_inj.mp (Json.string.inj (Option.some.inj found))
        rw [same] at notEmpty valid
        refine ⟨notEmpty, ?_, valid⟩
        have start := List.head?_dropWhile_not isspace msg
        rw [show msg.dropWhile isspace = msg from same] at start
        intro c first
        rw [first] at start
        simpa using start
      · cases made
  · rintro ⟨notEmpty, start, valid⟩
    have same : skipSpace msg = msg := by
      cases msg with
      | nil => exact absurd rfl notEmpty
      | cons c rest => exact skipSpace_of_head rest (start c rfl)
    rw [same]
    refine ⟨root.set "message" (some (.string (String.ofList msg))), ?_,
      Json.get?_set_of_isObject object _ _⟩
    rw [setMessage, if_neg notEmpty, jsonString, if_pos valid]
    rfl

omit [Jansson] in
/-- The fields for the time denote the instant just in case the fraction and the offset are zero and
    it is not the second before 1970. -/
theorem stampedFields_instant_iff (utc : IsUtc) (line : Line) :
    (∃ timestamp usec : Int, (stampedFields line).get? "timestamp" = some (.integer timestamp) ∧
      ((stampedFields line).get? "timestamp_usec").getD (.integer 0) = .integer usec ∧
      timestamp * 10 ^ 6 + usec = line.stamp.instant) ↔
    decimalValue line.stamp.fraction = 0 ∧ line.stamp.offsetSeconds = 0 ∧
      line.stamp.seconds ≠ -1 := by
  obtain ⟨noFraction, time⟩ := stampedFields_get? line
  rw [noFraction, time, utc line.stamp, ← and_assoc, ← line.stamp.seconds_instant_iff]
  constructor
  · rintro ⟨timestamp, usec, stored, none, same⟩
    obtain rfl := Json.integer.inj none
    split at stored
    · cases stored
    · next represented =>
      obtain rfl := Json.integer.inj (Option.some.inj stored)
      rw [Int.add_zero] at same
      exact ⟨same, represented⟩
  · rintro ⟨same, represented⟩
    refine ⟨line.stamp.seconds, 0, if_neg represented, rfl, ?_⟩
    rw [Int.add_zero, same]

/-- The fields of a line denote its instant just in case its fraction and its offset are zero, it is
    not the second before 1970, and its message is not empty, does not start with a blank and is
    UTF-8. -/
theorem denotes_iff (utc : IsUtc) (line : Line) :
    Denotes line ↔
      (decimalValue line.stamp.fraction = 0 ∧ line.stamp.offsetSeconds = 0 ∧
        line.stamp.seconds ≠ -1) ∧
      line.msg ≠ [] ∧ (∀ c ∈ line.msg.head?, isspace c = false) ∧
        Jansson.utf8CheckString line.msg = true := by
  have noMessage : (stampedFields line).get? "message" = none := by
    unfold stampedFields
    split <;> rfl
  rw [← stampedFields_instant_iff utc, ← setMessage_iff (stampedFields_isObject line) noMessage,
    Denotes, nblexParseSyslogLine_line]
  constructor
  · rintro ⟨root, parsed, time, message⟩
    have timestamp := setMessage_other parsed (show "message" ≠ "timestamp" by decide)
    have usec := setMessage_other parsed (show "message" ≠ "timestamp_usec" by decide)
    rw [timestamp, usec] at time
    exact ⟨time, root, parsed, message⟩
  · rintro ⟨time, root, parsed, message⟩
    have timestamp := setMessage_other parsed (show "message" ≠ "timestamp" by decide)
    have usec := setMessage_other parsed (show "message" ≠ "timestamp_usec" by decide)
    rw [← timestamp, ← usec] at time
    exact ⟨root, parsed, time, message⟩

end Denotes

/-- The seconds of the calendar. -/
@[reducible] def utcTime : LocalTime where
  mktime tm := 86400 * dayNumber (tm.year + 1900).toNat
      ⟨tm.mon.toNat % 12, Nat.mod_lt _ (by decide)⟩ tm.mday +
    3600 * tm.hour + 60 * tm.min + tm.sec

theorem utcTime_isUtc : @IsUtc utcTime := by
  intro stamp
  have year : ((stamp.date.year : Int) - 1900 + 1900).toNat = stamp.date.year := by omega
  have month : (⟨((stamp.date.month : Nat) : Int).toNat % 12, Nat.mod_lt _ (by decide)⟩ : Fin 12) =
      stamp.date.month :=
    Fin.ext (Nat.mod_eq_of_lt stamp.date.month.isLt)
  show 86400 * dayNumber _ _ _ + _ + _ + _ = _
  rw [Stamp.tm, year, month]
  rfl

/-- `<34>1 2023-11-08T10:30:45Z up`, with a fraction. -/
def upLine (fraction : List Char)
    (digits : fraction.length ≤ 6 ∧ ∀ c ∈ fraction, isdigit c = true) : Line where
  pri := 34
  stamp := ⟨⟨2023, ⟨10, by decide⟩, 8, by decide⟩, 10, 30, 45, fraction, none, by decide, digits⟩
  msg := ['u', 'p']

theorem upLine_denotes : @Denotes acceptingJansson utcTime (upLine [] ⟨by decide, nofun⟩) :=
  (@denotes_iff acceptingJansson utcTime utcTime_isUtc (upLine [] ⟨by decide, nofun⟩)).mpr
    ⟨⟨rfl, rfl, by decide +kernel⟩, List.cons_ne_nil _ _, by simp [upLine, isspace], rfl⟩

/-- `<34>1 2023-11-08T10:30:45.5Z up`. -/
def halfSecond : Line := upLine ['5'] ⟨by decide, by simp [isdigit]⟩

/-- Half a second is lost. -/
theorem halfSecond_not_denotes :
    halfSecond.text = "<34>1 2023-11-08T10:30:45.5Z up".toList ∧
      ¬@Denotes acceptingJansson utcTime halfSecond := by
  refine ⟨by decide, ?_⟩
  rintro ⟨root, parsed, time, -⟩
  rw [@nblexParseSyslogLine_line acceptingJansson utcTime] at parsed
  rw [@setMessage_other acceptingJansson _ _ _ parsed "timestamp" (by decide),
    @setMessage_other acceptingJansson _ _ _ parsed "timestamp_usec" (by decide)] at time
  have zero := ((@stampedFields_instant_iff utcTime utcTime_isUtc _).mp time).1
  exact absurd zero (by decide)

end Syslog

end Nblex
