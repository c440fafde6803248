import Nblex.Input.Proofs.LogLines
import Nblex.Parsers.Proofs.HttpStatus
import Nblex.Parsers.Proofs.LogfmtRoundTrip

/-!
# Files of records

Where every line of a tailed file is the text of a record, every record makes one event: the text
is cut out of the file by its newline alone, so what a parser is known to make of the text it makes
of the line.
-/

namespace Nblex

open Http Lines

/-- A text that is a line of a file: a buffer holds it, and its characters are bytes other than the
    newline and NUL. -/
structure LineText (text : List Char) : Prop where
  nonempty : text ≠ []
  short : text.length ≤ lineLimit
  inLine : ∀ c ∈ text, c.toNat < 256 ∧ c ≠ '\n' ∧ c ≠ '\x00'

/-- The bytes of a file of lines. -/
def fileBytes (texts : List (List Char)) : List UInt8 :=
  (texts.map charBytes).flatMap fun line => line ++ [newline]

theorem charBytes_byte {text : List Char} (inLine : ∀ c ∈ text, c.toNat < 256) {byte : UInt8}
    (member : byte ∈ charBytes text) : ∃ c ∈ text, c.toNat = byte.toNat := by
  obtain ⟨c, inside, rfl⟩ := List.mem_map.mp member
  exact ⟨c, inside, by rw [UInt8.toNat_ofNat', Nat.mod_eq_of_lt (inLine c inside)]⟩

theorem LineText.bytes {text : List Char} (line : LineText text) :
    charBytes text ≠ [] ∧ newline ∉ charBytes text ∧ ∀ byte ∈ charBytes text, byte ≠ 0 := by
  have byteOf : ∀ {byte : UInt8} {d : Char}, byte ∈ charBytes text → d.toNat = byte.toNat →
      d ∈ text := by
    intro byte d member same
    obtain ⟨c, inside, here⟩ := charBytes_byte (fun c member => (line.inLine c member).1) member
    have equal : d = c := Char.ext (UInt32.toNat_inj.mp (same.trans here.symm))
    rwa [equal]
  refine ⟨?_, ?_, ?_⟩
  · rw [charBytes, Ne, List.map_eq_nil_iff]
    exact line.nonempty
  · intro member
    exact (line.inLine '\n' (byteOf member rfl)).2.1 rfl
  · rintro byte member rfl
    exact (line.inLine '\x00' (byteOf member rfl)).2.2 rfl

/-- The lines of a file of texts are the texts. -/
theorem lines_fileBytes {texts : List (List Char)} (each : ∀ text ∈ texts, LineText text) :
    lines newline (fileBytes texts) = texts.map charBytes := by
  refine lines_flatMap_terminated fun line member => ?_
  obtain ⟨text, inside, rfl⟩ := List.mem_map.mp member
  exact ⟨(each text inside).bytes.1, (each text inside).bytes.2.1⟩

theorem fileBytes_noNul {texts : List (List Char)} (each : ∀ text ∈ texts, LineText text) :
    ∀ byte ∈ fileBytes texts, byte ≠ 0 := by
  intro byte member
  obtain ⟨line, inside, here⟩ := List.mem_flatMap.mp member
  obtain ⟨text, isText, rfl⟩ := List.mem_map.mp inside
  rcases List.mem_append.mp here with front | last
  · exact (each text isText).bytes.2.2 byte front
  · rw [List.mem_singleton.mp last]
    decide

/-- A run over a file of texts is clean when no read comes while a line is half written. -/
theorem cleanTail_fileBytes {input : TailInput} {ops : List TailOp} {statOk : Bool}
    {texts : List (List Char)} (each : ∀ text ∈ texts, LineText text)
    (bytes : tailedBytes input ops = fileBytes texts)
    (whole : CleanPolls [] (tailedOps input ops statOk)) : CleanTail input ops statOk where
  noNul := bytes ▸ fileBytes_noNul each
  whole := whole
  short := by
    rw [bytes, lines_fileBytes each]
    intro line member
    obtain ⟨text, inside, rfl⟩ := List.mem_map.mp member
    rw [charBytes, List.length_map]
    exact (each text inside).short

/-! ## Logfmt files -/

namespace Logfmt

/-- Pairs whose text is a line of a file. -/
structure FileRecord where
  first : Pair
  later : List Pair
  valid : ∀ pair ∈ first :: later, pair.Valid
  line : LineText (lineText (first :: later))

namespace FileRecord

/-- The pairs of a record. -/
def pairs (record : FileRecord) : List Pair := record.first :: record.later

/-- The line of a record. -/
def text (record : FileRecord) : List Char := lineText record.pairs

/-- The object of a record: each key has the value given last for it. -/
def data (record : FileRecord) : Json := .object (Json.setAll (record.pairs.map Pair.entry) [])

theorem lineText (record : FileRecord) : LineText record.text := record.line

theorem data_get? (record : FileRecord) (key : List Char) :
    record.data.get? (String.ofList key) = lastValue record.pairs key :=
  get?_entries record.pairs key

/-- The first pair is read from the start of the line, the others behind it. -/
theorem parsed [Jansson] (ascii : Jansson.TakesAscii) (record : FileRecord) {turns : Nat}
    (enough : record.pairs.length < turns) :
    nblexParseLogfmtLine turns record.text = some (some record.data) := by
  obtain ⟨turns, rfl⟩ := Nat.exists_eq_add_one_of_ne_zero (Nat.ne_zero_of_lt enough)
  have valid := record.valid record.first List.mem_cons_self
  have turn := lineTurn_set
    (text_pairText valid (fun _ => List.not_mem_nil.elim) (laterText_blankOrEnd record.later))
    (jsonValue_bare ascii valid.value)
    (ascii record.first.key fun c member => (valid.chars c member).1) (.object []) 0
  rw [nblexParseLogfmtLine, if_neg record.lineText.nonempty]
  refine (runLoop_again turn turns).trans ?_
  exact runLoop_later ascii
    (fun other member => record.valid other (List.mem_cons_of_mem _ member)) _ _ turns
    (Nat.lt_of_succ_lt_succ enough) Nat.one_pos

theorem lineData [Jansson] [JanssonTexts] [LocalTime] (ascii : Jansson.TakesAscii)
    (record : FileRecord) {turns : Nat} (enough : record.pairs.length < turns) :
    Nblex.lineData turns .logfmt (charBytes record.text) = some record.data := by
  rw [Nblex.lineData, parseLine,
    bufferText_charBytes_of_lt fun c member => (record.lineText.inLine c member).1,
    record.parsed ascii enough]
  rfl

end FileRecord

end Logfmt

open Logfmt in
/-- A tailed logfmt file of records whose lines fit into the buffer: whatever chunks the lines come
    in, if no read comes inside a line, the handler gets one event for each record that the filter
    lets through, in their order, with the value given last for each key. -/
theorem tailRun_logfmt [Pcre2] [Jansson] [JanssonTexts] [LocalTime] (ascii : Jansson.TakesAscii)
    {input : TailInput} (logfmt : input.format = .logfmt) (clock : Nat → Nat)
    {turns : Nat} (depth : Nat) (content : List UInt8) (world : World) {ops : List TailOp}
    {statOk : Bool} {records : List FileRecord}
    (enough : ∀ record ∈ records, record.pairs.length < turns)
    (bytes : tailedBytes input ops = fileBytes (records.map FileRecord.text))
    (whole : CleanPolls [] (tailedOps input ops statOk)) :
    ∃ tail, tailRun input clock turns (depth + 2) ⟨fileInputStart content, world, 0⟩
        (ops ++ [.pollTimer statOk]) = some tail ∧
      tail.created = records.length ∧
      tail.world.handled.filter isLogEvent = world.handled.filter isLogEvent ++
        (lineEvents ⟨input.filter⟩ clock 0 (records.map FileRecord.data)).filter inputAccepts ∧
      ∀ record ∈ records, ∀ key,
        record.data.get? (String.ofList key) = lastValue record.pairs key := by
  have each : ∀ text ∈ records.map FileRecord.text, LineText text := by
    intro text member
    obtain ⟨record, -, rfl⟩ := List.mem_map.mp member
    exact record.lineText
  have parsed : List.Forall₂ (fun line data => Nblex.lineData turns input.format line = some data)
      (lines newline (tailedBytes input ops)) (records.map FileRecord.data) := by
    rw [bytes, lines_fileBytes each, List.map_map, List.forall₂_map_left_iff,
      List.forall₂_map_right_iff, List.forall₂_same]
    intro record member
    rw [logfmt]
    exact record.lineData ascii (enough record member)
  obtain ⟨file, tailed⟩ := tailRun_emits clock (depth + 2) content world
    (cleanTail_fileBytes each bytes whole) parsed
  obtain ⟨next, run, handled⟩ := worldRun_logs depth
    (lineEvents_log ⟨input.filter⟩ clock 0 (records.map FileRecord.data)) world
  refine ⟨⟨file, next, _⟩, ?_, List.length_map FileRecord.data, handled,
    fun record _ => record.data_get?⟩
  rw [tailed, run]
  rfl

namespace Logfmt

/-- `level="error" n=1`. -/
def errorRecord : FileRecord where
  first := ⟨"level".toList, .text "error".toList⟩
  later := [⟨['n'], .integer false ['1']⟩]
  valid := by
    intro pair member
    simp only [List.mem_cons, List.not_mem_nil, or_false] at member
    rcases member with rfl | rfl
    · exact ⟨by simp, by simp [isspace], by simp, by simp [isdigit], by simp, by simp⟩
    · exact ⟨by simp, by simp [isspace], ⟨by simp, by simp [isdigit]⟩, by decide, by decide⟩
  line := ⟨by simp [lineText, Pair.text], by decide, by
    have check : (lineText [⟨"level".toList, .text "error".toList⟩,
        ⟨['n'], .integer false ['1']⟩]).all
          (fun c => c.toNat < 256 && c ≠ '\n' && c ≠ '\x00') = true := by decide
    intro c member
    simpa [and_assoc] using List.all_eq_true.mp check c member⟩

/-- An input of errors. -/
def errorInput : TailInput :=
  ⟨.logfmt, some (.expr ⟨"level", .eq, .string "error", none⟩), "/var/log/a".toList, ['a']⟩

/-- The record in two chunks, with a read before it. -/
def errorOps : List TailOp :=
  [.pollTimer true, .append ((fileBytes [errorRecord.text]).take 5),
    .append ((fileBytes [errorRecord.text]).drop 5)]

theorem tailRun_logfmt_errorRecord :
    let _ := literalPcre2
    let _ := acceptingJansson
    let _ := epochTime
    let _ : JanssonTexts := ⟨fun _ => none, fun _ => none⟩
    let event := lineEvent ⟨errorInput.filter⟩ id 0 errorRecord.data
    inputAccepts event = true ∧
    ∃ tail, tailRun errorInput id 3 2 ⟨fileInputStart [], openedWorld 100, 0⟩
        (errorOps ++ [.pollTimer true]) = some tail ∧
      tail.created = 1 ∧ tail.world.handled.filter isLogEvent = [event].filter inputAccepts := by
  intro _ _ _ _ event
  have whole : CleanPolls [] (tailedOps errorInput errorOps true) := by
    refine ⟨.inl fun byte last => ?_, .inl fun byte last => ?_, trivial⟩
    · cases last
    · rw [show ((([] : List UInt8) ++ _) ++ _ : List UInt8) = fileBytes [errorRecord.text] from
        List.take_append_drop 5 _, fileBytes, List.map_singleton, List.flatMap_singleton,
        List.getLast?_concat] at last
      exact (Option.some.inj last).symm
  have bytes : tailedBytes errorInput errorOps = fileBytes ([errorRecord].map FileRecord.text) := by
    decide
  have enough : ∀ record ∈ [errorRecord], record.pairs.length < 3 := by
    intro record member
    rw [List.mem_singleton.mp member]
    decide
  obtain ⟨tail, run, created, handled, -⟩ := tailRun_logfmt acceptingJansson_takesAscii rfl id 0 []
    (openedWorld 100) enough bytes whole
  exact ⟨by decide, tail, run, created, handled⟩

end Logfmt

end Nblex
