import Nblex.Misc.Scanf
import Nblex.Misc.Words
import Nblex.Parsers.JsonText

/-!
# The syslog parser

`src/parsers/syslog_parser.c`: the dispatcher and the two formats. `mktime` depends on the time zone
and is a parameter. Allocation is assumed to succeed.
-/

namespace Nblex

/-- The members of `struct tm` that the parser sets. -/
structure Tm where
  year : Int
  mon : Int
  mday : Int
  hour : Int
  min : Int
  sec : Int

/-- `mktime`; `-1` is a time that cannot be represented. -/
class LocalTime where
  mktime : Tm → Int

/-- Every time is the epoch. -/
@[reducible] def epochTime : LocalTime where
  mktime := fun _ => 0

namespace Syslog

/-- The priority `<number>`, from 0 to 191, and the position behind it. -/
def parsePriority (line : List Char) : Option (Int × List Char) :=
  match line with
  | '<' :: rest =>
      match strtol rest with
      | (pri, '>' :: pos) => if pri < 0 ∨ 191 < pri then none else some (pri, pos)
      | _ => none
  | _ => none

/-- The object with the priority fields. -/
def priorityFields (pri : Int) : Json :=
  (((Json.object []).set "syslog_priority" (some (.integer pri))).set
    "syslog_facility" (some (.integer (pri / 8)))).set
    "syslog_severity" (some (.integer (pri % 8)))

/-- `months`. -/
def months : List (List Char) :=
  [['J', 'a', 'n'], ['F', 'e', 'b'], ['M', 'a', 'r'], ['A', 'p', 'r'], ['M', 'a', 'y'],
    ['J', 'u', 'n'], ['J', 'u', 'l'], ['A', 'u', 'g'], ['S', 'e', 'p'], ['O', 'c', 't'],
    ['N', 'o', 'v'], ['D', 'e', 'c']]

/-- `"%3s %2d %2d:%2d:%2d"`. -/
def stampFormat : List Directive :=
  [.string 3, .space, .int 2, .space, .int 2, .literal ':', .int 2, .literal ':', .int 2]

/-- `"%4d-%2d-%2dT%2d:%2d:%2d"`. -/
def isoFormat : List Directive :=
  [.int 4, .literal '-', .int 2, .literal '-', .int 2, .literal 'T', .int 2, .literal ':', .int 2,
    .literal ':', .int 2]

/-- The characters of a host name. -/
def isHostChar (c : Char) : Bool := !isspace c && c ≠ ':'

/-- The position of the message: behind the first `:` and the blanks after it. -/
def messageAt (pos : List Char) : List Char :=
  match pos.dropWhile (· ≠ ':') with
  | [] => []
  | _ :: rest => skipSpace rest

/-- The fraction of a second, in millionths: up to six digits behind the first dot, if there is none
    of `Z`, `+` and `-` before it. -/
def microseconds (pos : List Char) : Nat :=
  match pos.dropWhile (fun c => c ≠ 'Z' && c ≠ '+' && c ≠ '-' && c ≠ '.') with
  | '.' :: rest =>
      let digits := (rest.take 6).takeWhile isdigit
      decimalValue digits * 10 ^ (6 - digits.length)
  | _ => 0

section Formats

variable [Jansson] [LocalTime]

omit [LocalTime] in
/-- The rest of the line is the message; a text that is not UTF-8 fails the parser. -/
def setMessage (root : Json) (pos : List Char) : Option Json :=
  if pos = [] then some root
  else (jsonString pos).map fun message => root.set "message" (some message)

omit [Jansson] in
/-- The timestamp of a line, if the month is one. -/
def stampField (root : Json) (month : List Char) (day hour min sec : Int) : Json :=
  match months.findIdx? (· = month) with
  | some mon =>
      root.set "timestamp"
        (some (.integer (LocalTime.mktime ⟨100, mon, day, hour, min, sec⟩)))
  | none => root

omit [Jansson] in
/-- The timestamp `Mon DD HH:MM:SS`: the object and the position after the step. -/
def parseStamp (root : Json) (pos : List Char) : Json × List Char :=
  match sscanf stampFormat pos with
  | [.text month, .int day, .int hour, .int min, .int sec] =>
      (stampField root month day hour min sec, skipSpace (wordEnd pos))
  | _ => (root, pos)

/-- `parse_rfc3164`. -/
def parseRfc3164 (line : List Char) : Option Json :=
  match parsePriority line with
  | none => none
  | some (pri, pos) =>
      let (root, pos) := parseStamp (priorityFields pri) (skipSpace pos)
      let host := pos.takeWhile isHostChar
      let root := if host = [] then root else root.set "hostname" (jsonString host)
      setMessage root (messageAt (pos.dropWhile isHostChar))

omit [Jansson] in
/-- The ISO timestamp. -/
def parseIsoStamp (root : Json) (pos : List Char) : Json × List Char :=
  match sscanf isoFormat pos with
  | [.int year, .int mon, .int day, .int hour, .int min, .int sec] =>
      let timestamp := LocalTime.mktime ⟨year - 1900, mon - 1, day, hour, min, sec⟩
      let root :=
        if timestamp = -1 then root
        else
          let root := root.set "timestamp" (some (.integer timestamp))
          if 0 < microseconds pos then
            root.set "timestamp_usec" (some (.integer (microseconds pos)))
          else root
      (root, skipSpace (pos.dropWhile (· ≠ ' ')))
  | _ => (root, pos)

/-- `parse_rfc5424`. -/
def parseRfc5424 (line : List Char) : Option Json :=
  match parsePriority line with
  | none => none
  | some (pri, pos) =>
      match pos with
      | version :: ' ' :: pos =>
          if isdigit version then
            let root := (priorityFields pri).set "syslog_version"
              (some (.integer (decimalValue [version])))
            let (root, pos) := parseIsoStamp root pos
            setMessage root pos
          else none
      | _ => none

end Formats

end Syslog

open Syslog in
/-- `nblex_parse_syslog_line`: a digit behind the first `>` is the version of RFC 5424. -/
def nblexParseSyslogLine [Jansson] [LocalTime] (line : List Char) : Option Json :=
  match line with
  | '<' :: rest =>
      match rest.dropWhile (· ≠ '>') with
      | _ :: c :: _ => if isdigit c then parseRfc5424 line else parseRfc3164 line
      | _ => parseRfc3164 line
  | _ => parseRfc3164 line

end Nblex
