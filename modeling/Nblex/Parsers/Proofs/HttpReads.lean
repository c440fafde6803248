import Nblex.Parsers.HttpReads

/-!
# The HTTP dissector on indexes

On indexes into the payload and into the copied first line the dissector has the result that it has
on their rests. So it ends, and reads no byte behind the payload and no character behind the NUL of
the line.
-/

namespace Nblex

namespace HttpReads

open Http (cString isLineEnd isLastWordChar bufferText)

variable {rest : List Char} {pos turns : Nat}

theorem nul_notMem_cString (buffer : List Char) : nul ∉ cString buffer := by
  intro member
  have kept := List.all_takeWhile (p := fun c => decide (c ≠ '\x00')) (l := buffer)
  exact of_decide_eq_true (List.all_eq_true.mp kept nul member) rfl

section Line

variable [Jansson] {line : List Char}

/-! ## The first line -/

/-- The word behind a pointer is copied. -/
theorem setBetween_runs (points : PointsAt line pos rest) (p : Char → Bool) (key : String)
    (http : Json) :
    setBetween line key pos (pos + (rest.takeWhile p).length) http =
      .ok (Http.setWord http key (rest.takeWhile p)) := by
  have prefixed := List.takeWhile_prefix (l := rest) p
  have copied := points.copy _ prefixed.length_le
  rw [← List.prefix_iff_eq_take.mp prefixed] at copied
  rw [setBetween, Http.setWord, u64Sub_add_left]
  by_cases empty : rest.takeWhile p = []
  · rw [if_pos empty, if_neg (by simp [empty])]
    rfl
  · have some := List.length_pos_iff.mpr empty
    rw [if_neg empty, if_pos (by omega), copied]
    rfl

omit [Jansson] in
theorem setStatusCode_runs (points : PointsAt line pos rest) (http : Json) :
    setStatusCode line pos (pos + (rest.takeWhile isdigit).length) http =
      .ok (if rest.takeWhile isdigit = [] then http
        else http.set "status_code" (some (.integer (toInt32 (strtol rest).1)))) := by
  rw [setStatusCode]
  by_cases empty : rest.takeWhile isdigit = []
  · rw [if_pos empty, if_neg (by simp [empty])]
    rfl
  · have some := List.length_pos_iff.mpr empty
    rw [if_neg empty, if_pos (by omega), points.string]
    rfl

variable (terminated : nul ∉ line) (enough : line.length < turns)
include terminated enough

omit [Jansson] in
/-- A loop over the line. -/
theorem scan_runs (points : PointsAt line pos rest) (p : Char → Bool) :
    scanWhile line p turns pos = .ok (pos + (rest.takeWhile p).length) ∧
      PointsAt line (pos + (rest.takeWhile p).length) (rest.dropWhile p) :=
  points.scanWhile terminated p turns (points.suffix.length_le.trans_lt enough)

theorem parseHttpRequestLine_runs (http : Json) :
    parseHttpRequestLine line turns http = .ok (Http.parseHttpRequestLine line http) := by
  have start := pointsAt_start line
  obtain ⟨method, behindMethod⟩ := scan_runs terminated enough start fun c => !isspace c
  obtain ⟨toUri, atUri⟩ := scan_runs terminated enough behindMethod isspace
  obtain ⟨uri, behindUri⟩ := scan_runs terminated enough atUri fun c => !isspace c
  obtain ⟨toVersion, atVersion⟩ := scan_runs terminated enough behindUri isspace
  obtain ⟨version, -⟩ := scan_runs terminated enough atVersion isLastWordChar
  have prefixed := List.takeWhile_prefix (l := line) fun c => !isspace c
  have copied := start.copy _ prefixed.length_le
  rw [← List.prefix_iff_eq_take.mp prefixed] at copied
  rw [parseHttpRequestLine, method, ok_bind, Http.parseHttpRequestLine]
  by_cases empty : wordAt line = []
  · have atStart : 0 + (line.takeWhile fun c => !isspace c).length = 0 := by
      rw [Nat.zero_add]
      exact List.length_eq_zero_iff.mpr empty
    rw [if_pos atStart, if_pos empty]
    rfl
  · have passed : 0 + (line.takeWhile fun c => !isspace c).length ≠ 0 := by
      rw [Nat.zero_add]
      exact fun none => empty (List.length_eq_zero_iff.mp none)
    rw [if_neg passed, if_neg empty, u64Sub_add_left, copied, ok_bind, toUri, ok_bind, uri, ok_bind,
      setBetween_runs atUri, ok_bind, toVersion, ok_bind, version, ok_bind,
      setBetween_runs atVersion, ok_bind]
    rfl

theorem parseHttpStatusLine_runs (http : Json) :
    parseHttpStatusLine line turns http = .ok (Http.parseHttpStatusLine line http) := by
  have start := pointsAt_start line
  obtain ⟨version, behindVersion⟩ := scan_runs terminated enough start fun c => !isspace c
  obtain ⟨toCode, atCode⟩ := scan_runs terminated enough behindVersion isspace
  obtain ⟨code, behindCode⟩ := scan_runs terminated enough atCode isdigit
  obtain ⟨toReason, atReason⟩ := scan_runs terminated enough behindCode isspace
  obtain ⟨reason, -⟩ := scan_runs terminated enough atReason isLastWordChar
  rw [parseHttpStatusLine, version, ok_bind, setBetween_runs start, ok_bind, toCode, ok_bind, code,
    ok_bind, setStatusCode_runs atCode, ok_bind, toReason, ok_bind, reason, ok_bind,
    setBetween_runs atReason, ok_bind]
  rfl

theorem parseFirstLine_runs (isRequest : Bool) :
    parseFirstLine line turns isRequest =
      .ok (if isRequest then Http.parseHttpRequestLine line (.object [])
        else Http.parseHttpStatusLine line (.object [])) := by
  cases isRequest with
  | true => exact parseHttpRequestLine_runs terminated enough _
  | false => exact parseHttpStatusLine_runs terminated enough _

end Line

section Payload

variable {data : List Char}

/-! ## The payload -/

theorem skipOne_runs (points : PointsAt data pos rest) (c : Char) :
    ∃ next, skipOne data data.length c pos = .ok next ∧
      PointsAt data next (Http.skipOne c rest) := by
  have length := points.length
  cases rest with
  | nil =>
      have atEnd : ¬pos < data.length := by
        rw [List.length_nil] at length
        omega
      exact ⟨pos, if_neg atEnd, points⟩
  | cons d rest =>
      have inside : pos < data.length := by
        rw [List.length_cons] at length
        omega
      rw [skipOne, if_pos inside, points.readIn_cons, ok_bind, Http.skipOne]
      by_cases same : d = c
      · rw [if_pos same, if_pos same]
        exact ⟨pos + 1, rfl, points.next⟩
      · rw [if_neg same, if_neg same]
        exact ⟨pos, rfl, points⟩

theorem nextLine_runs (points : PointsAt data pos rest) :
    ∃ next, nextLine data data.length pos = .ok next ∧ PointsAt data next (Http.nextLine rest) := by
  obtain ⟨behind, skipped, points⟩ := skipOne_runs points '\r'
  obtain ⟨next, again, points⟩ := skipOne_runs points '\n'
  refine ⟨next, ?_, points⟩
  rw [nextLine, skipped, ok_bind, again]

/-- The end of the line behind a pointer. -/
theorem lineEnd_runs (points : PointsAt data pos rest) (enough : data.length < turns) :
    scanTo data (fun c => !isLineEnd c) data.length turns pos =
        .ok (pos + (Http.lineAt rest).length) ∧
      PointsAt data pos (Http.lineAt rest ++ Http.lineEnd rest) := by
  have length := points.length
  have whole : PointsAt data pos (rest ++ []) := by rwa [List.append_nil]
  have shorter : rest.length < turns := by omega
  have scanned := whole.scanTo (fun c => !isLineEnd c) rest shorter
  rw [length] at scanned
  refine ⟨scanned, ?_⟩
  rw [Http.lineAt, Http.lineEnd, List.takeWhile_append_dropWhile]
  exact points

variable [Jansson]

/-- The value of a header is copied up to the end of its line. -/
theorem setHeader_runs {name value : List Char} {c : Char}
    (points : PointsAt data pos (name ++ c :: (value ++ rest))) (enough : data.length < turns)
    (headers : Json) :
    setHeader data turns pos (pos + name.length) (pos + (name ++ c :: value).length) headers =
      .ok (if Jansson.utf8CheckString (cString (name.map Char.toLower)) then
        headers.set (String.ofList (cString (name.map Char.toLower)))
          (jsonString (cString (skipSpace value))) else headers) := by
  have length := points.length
  have atValue := points.behind.next
  have limit : pos + (name ++ c :: value).length = pos + name.length + 1 + value.length := by
    rw [List.length_append, List.length_cons]
    omega
  have colon : pos + name.length < pos + name.length + 1 + value.length := by omega
  have shorter : value.length < turns := by
    rw [List.length_append, List.length_cons, List.length_append] at length
    omega
  have scanned := atValue.scanTo isspace value shorter
  have blanks : value.takeWhile isspace ++ skipSpace value = value :=
    List.takeWhile_append_dropWhile
  rw [limit, setHeader, if_pos colon, u64Sub_add_left, points.copyIn name, ok_bind, scanned,
    ok_bind]
  generalize value.takeWhile isspace = front at *
  generalize skipSpace value = text at *
  subst blanks
  rw [List.append_assoc] at atValue
  rw [List.length_append, ← Nat.add_assoc, u64Sub_add_left, atValue.behind.copyIn text, ok_bind]
  split
  · rfl
  · rfl

/-- A header line is read inside of the line. -/
theorem setHeader_line {line : List Char} (points : PointsAt data pos (line ++ rest))
    (enough : data.length < turns) (headers : Json) :
    (scanTo data (· ≠ ':') (pos + line.length) turns pos >>= fun colon =>
      setHeader data turns pos colon (pos + line.length) headers) =
        .ok (Http.setHeader line headers) := by
  have length := points.length
  have shorter : line.length < turns := by
    rw [List.length_append] at length
    omega
  rw [points.scanTo _ line shorter, ok_bind, Http.setHeader]
  have parts := List.takeWhile_append_dropWhile (p := (· ≠ ':')) (l := line)
  generalize line.takeWhile (· ≠ ':') = name at *
  cases colon : line.dropWhile (· ≠ ':') with
  | nil =>
      rw [colon, List.append_nil] at parts
      rw [parts, setHeader, if_neg (Nat.lt_irrefl _)]
      rfl
  | cons c value =>
      rw [colon] at parts
      subst parts
      rw [List.append_assoc, List.cons_append] at points
      exact setHeader_runs points enough headers

/-- The loop over the header lines ends: each turn passes a line. -/
theorem parseHttpHeaders_runs (enough : data.length < turns) (left : Nat) :
    ∀ {pos : Nat} {rest : List Char} (headers : Json), PointsAt data pos rest →
      rest.length < left →
        parseHttpHeaders data data.length turns left pos headers =
          .ok (Http.parseHttpHeaders rest headers) := by
  induction left with
  | zero => exact fun _ _ fewer => absurd fewer (Nat.not_lt_zero _)
  | succ left ih =>
      intro pos rest headers points fewer
      have length := points.length
      obtain ⟨scanned, atLine⟩ := lineEnd_runs points enough
      rw [parseHttpHeaders, Http.parseHttpHeaders]
      by_cases empty : Http.lineAt rest = []
      · have stays : pos + (Http.lineAt rest).length = pos := by
          rw [empty]
          rfl
        rw [dif_pos empty, scanned, ok_bind, if_pos stays, ite_self]
        rfl
      · have line := List.length_pos_iff.mpr empty
        have progress := Http.nextLine_length_lt empty
        obtain ⟨next, ran, atNext⟩ := nextLine_runs atLine.behind
        have inside : pos < data.length := by
          have whole := atLine.length
          rw [List.length_append] at whole
          omega
        have passed : pos + (Http.lineAt rest).length ≠ pos := by omega
        have header := setHeader_line atLine enough headers
        rw [dif_neg empty, if_pos inside, scanned, ok_bind, if_neg passed, ← bind_assoc, header,
          ok_bind, ran, ok_bind]
        exact ih _ atNext (by omega)

end Payload

end HttpReads

open Http HttpReads in
/-- Every payload is dissected to its end: no byte behind it and no character behind the NUL of its
    first line is read. -/
theorem nblexParseHttpPayload_readsInside [Jansson] (bytes : List UInt8) (isRequest : Bool) :
    HttpReads.nblexParseHttpPayload bytes (bytes.length + 1) isRequest =
      .ok (nblexParseHttpPayload bytes isRequest) := by
  have enough : (bufferText bytes).length < bytes.length + 1 := by
    rw [bufferText, List.length_map]
    exact Nat.lt_succ_self _
  generalize bytes.length + 1 = turns at enough
  rw [HttpReads.nblexParseHttpPayload, nblexParseHttpPayload]
  generalize bufferText bytes = data at enough
  obtain ⟨scanned, atLine⟩ := lineEnd_runs (pointsAt_start data) enough
  rw [Nat.zero_add] at scanned
  dsimp only
  by_cases empty : lineAt data = []
  · rw [if_pos empty, scanned, ok_bind, if_pos (List.length_eq_zero_iff.mpr empty), ite_self]
    rfl
  have line := List.length_pos_iff.mpr empty
  have notEmpty : data.length ≠ 0 := by
    have whole := atLine.length
    rw [List.length_append] at whole
    omega
  have copied := atLine.copyIn (lineAt data)
  have firstLine := u64Sub_add_left 0 (lineAt data).length
  rw [Nat.zero_add] at firstLine
  have short : (cString (lineAt data)).length < turns := by
    have inLine := (List.takeWhile_prefix (l := lineAt data) fun c => c ≠ '\x00').length_le
    have inData := (List.takeWhile_prefix (l := data) fun c => !isLineEnd c).length_le
    exact (inLine.trans inData).trans_lt enough
  have parsed := parseFirstLine_runs (nul_notMem_cString (lineAt data)) short isRequest
  rw [if_neg notEmpty, scanned, ok_bind, if_neg line.ne', firstLine, copied, ok_bind, parsed,
    ok_bind,
    if_neg empty]
  generalize (if isRequest then Http.parseHttpRequestLine (cString (lineAt data)) (.object [])
      else Http.parseHttpStatusLine (cString (lineAt data)) (.object [])) = result
  cases result with
  | none => rfl
  | some http =>
      obtain ⟨next, ran, atNext⟩ := nextLine_runs atLine.behind
      rw [Nat.zero_add] at ran
      have remaining : next + u64Sub data.length next = data.length := by
        rw [u64Sub_of_le atNext.inside]
        exact Nat.add_sub_cancel' atNext.inside
      dsimp only
      rw [ran, ok_bind, remaining, parseHttpHeaders_runs enough turns _ atNext
        (atNext.suffix.length_le.trans_lt enough), ok_bind]
      rfl

end Nblex
