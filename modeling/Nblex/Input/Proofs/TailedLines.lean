import Nblex.Input.FileInput
import Mathlib.Data.List.TakeWhile

/-!
# Lines of a tailed file

A poll reads everything appended since the poll before it, in pieces as long as the buffer. The
lines that become events are those of the pieces, so a line survives exactly when no poll and no
full buffer cuts it.
-/

namespace Nblex

open Lines

/-- What the stream has not read yet. -/
def TailedFile.unread (file : TailedFile) : List UInt8 := file.content.drop file.pos

/-- The position of the stream is in the file, and a set end-of-file flag is right. -/
structure TailedFile.Valid (file : TailedFile) : Prop where
  inside : file.pos ≤ file.content.length
  eof : file.eof = true → file.unread = []

theorem TailedFile.Valid.atEnd {file : TailedFile} (valid : file.Valid)
    (nothing : file.unread = []) : file.pos = file.content.length := by
  have beyond := List.drop_eq_nil_iff.mp nothing
  exact Nat.le_antisymm valid.inside beyond

/-- A buffer without NUL holds one piece; its line is the line of the piece. -/
theorem bufferLine_takePiece {xs : List UInt8} (noNul : ∀ byte ∈ xs, byte ≠ 0) :
    bufferLine (takePiece newline lineLimit xs).1 =
      lines newline (takePiece newline lineLimit xs).1 := by
  have whole := @takePiece_append _ _ newline lineLimit xs
  have noNulPiece : ∀ byte ∈ (takePiece newline lineLimit xs).1, byte ≠ 0 := by
    intro byte member
    apply noNul
    rw [← whole]
    exact List.mem_append_left _ member
  obtain ⟨line, free, shape⟩ := @takePiece_shape _ _ newline lineLimit xs
  have text : ∀ piece : List UInt8, (∀ byte ∈ piece, byte ≠ 0) →
      piece.takeWhile (fun byte => decide (byte ≠ 0)) = piece := by
    intro piece clean
    rw [List.takeWhile_eq_self_iff]
    intro byte member
    exact decide_eq_true (clean byte member)
  rw [bufferLine, text _ noNulPiece]
  rcases shape with ended | ⟨same, -⟩
  · rw [ended, lines_terminated free, List.getLast?_concat, if_pos rfl, List.dropLast_concat]
  · have unended : line.getLast? ≠ some newline := by
      intro last
      exact free (List.mem_of_getLast? last)
    rw [same, lines_of_not_mem free, if_neg unended]

/-- What is left after the first piece. -/
theorem drop_takePiece (xs : List UInt8) :
    xs.drop (takePiece newline lineLimit xs).1.length = (takePiece newline lineLimit xs).2 := by
  have whole := @takePiece_append _ _ newline lineLimit xs
  have parts := @List.drop_left _ (takePiece newline lineLimit xs).1
    (takePiece newline lineLimit xs).2
  rwa [whole] at parts

/-- The stream after reading one piece. -/
def TailedFile.advanced (file : TailedFile) : TailedFile :=
  let piece := (takePiece newline lineLimit file.unread).1
  { file with
    pos := file.pos + piece.length
    eof := decide (piece.length < lineLimit ∧ piece.getLast? ≠ some newline) }

/-- One call of `fgets` on a valid stream: nothing at the end of the file, else the next piece. -/
theorem fgets_spec {file : TailedFile} (valid : file.Valid) :
    ∃ next : TailedFile, next.Valid ∧ next.content = file.content ∧
      ((file.unread = [] ∧ fgets file = (none, next) ∧ next.pos = file.content.length) ∨
        (file.unread ≠ [] ∧
          fgets file = (some (takePiece newline lineLimit file.unread).1, next) ∧
          next.unread = (takePiece newline lineLimit file.unread).2)) := by
  by_cases nothing : file.unread = []
  · have last := valid.atEnd nothing
    by_cases ended : file.eof = true
    · refine ⟨file, valid, rfl, Or.inl ⟨nothing, ?_, last⟩⟩
      rw [fgets, if_pos ended]
    · have noPiece : (takePiece newline lineLimit (file.content.drop file.pos)).1 = [] := by
        show (takePiece newline lineLimit file.unread).1 = []
        rw [nothing]
        rfl
      refine ⟨{ file with eof := true }, ⟨valid.inside, fun _ => nothing⟩, rfl,
        Or.inl ⟨nothing, ?_, last⟩⟩
      rw [fgets, if_neg ended]
      simp only [noPiece]
      rfl
  · have notEnded : ¬ file.eof = true := fun ended => nothing (valid.eof ended)
    have more : (takePiece newline lineLimit file.unread).1 ≠ [] :=
      takePiece_ne_nil (by decide) nothing
    have rest : file.advanced.unread = (takePiece newline lineLimit file.unread).2 := by
      rw [← drop_takePiece file.unread, TailedFile.unread, TailedFile.unread, List.drop_drop]
      rfl
    have read : fgets file = (some (takePiece newline lineLimit file.unread).1, file.advanced) := by
      rw [fgets, if_neg notEnded]
      simp only [show file.content.drop file.pos = file.unread from rfl, if_neg more]
      rfl
    refine ⟨file.advanced, ⟨?_, ?_⟩, rfl, Or.inr ⟨nothing, read, rest⟩⟩
    · have whole := @takePiece_append _ _ newline lineLimit file.unread
      have count := congrArg List.length whole
      have bound := valid.inside
      simp only [TailedFile.unread, List.length_append, List.length_drop] at count
      simp only [TailedFile.advanced, TailedFile.unread]
      omega
    · intro ended
      obtain ⟨short, noNewline⟩ := of_decide_eq_true ended
      rw [rest]
      obtain ⟨line, free, shape⟩ := @takePiece_shape _ _ newline lineLimit file.unread
      rcases shape with terminated | ⟨same, full | last⟩
      · rw [terminated, List.getLast?_concat] at noNewline
        exact absurd rfl noNewline
      · rw [same] at short
        exact absurd full (Nat.ne_of_lt short)
      · exact last

/-- The reading loop reads to the end of the file. -/
theorem readLines_spec :
    ∀ (fuel : Nat) {file : TailedFile}, file.Valid → (∀ byte ∈ file.unread, byte ≠ 0) →
      file.unread.length < fuel →
      ∃ pieces file', readLines fuel file = some (pieces.flatMap (lines newline), file') ∧
        Pieces newline lineLimit file.unread pieces ∧ file'.content = file.content ∧
        file'.pos = file.content.length ∧ file'.Valid := by
  intro fuel
  induction fuel with
  | zero =>
      intro file valid noNul enough
      exact absurd enough (Nat.not_lt_zero _)
  | succ fuel ih =>
      intro file valid noNul enough
      rw [readLines]
      obtain ⟨next, valid', content, ⟨nothing, read, last⟩ | ⟨more, read, rest⟩⟩ :=
        fgets_spec valid
      · rw [read, nothing]
        exact ⟨[], next, rfl, Pieces.done, content, last, valid'⟩
      · have whole := @takePiece_append _ _ newline lineLimit file.unread
        have progress : (takePiece newline lineLimit file.unread).1 ≠ [] :=
          takePiece_ne_nil (by decide) more
        have noNul' : ∀ byte ∈ next.unread, byte ≠ 0 := by
          intro byte member
          rw [rest] at member
          apply noNul
          rw [← whole]
          exact List.mem_append_right _ member
        have enough' : next.unread.length < fuel := by
          have count := congrArg List.length whole
          have positive := List.length_pos_iff.mpr progress
          rw [rest]
          rw [List.length_append] at count
          omega
        obtain ⟨pieces, file', run, cut, content', last, valid''⟩ := ih valid' noNul' enough'
        rw [rest] at cut
        refine ⟨_ :: pieces, file', ?_, Pieces.piece more cut, content'.trans content, ?_,
          valid''⟩
        · rw [read]
          dsimp only
          rw [run, Option.map_some, bufferLine_takePiece noNul, List.flatMap_cons]
        · rw [last, content]

/-- A poll reads to the end of the file. -/
theorem fileReadNewData_spec {file : TailedFile} (inside : file.pos ≤ file.content.length)
    (noNul : ∀ byte ∈ file.unread, byte ≠ 0) (statOk : Bool) :
    ∃ pieces file',
      fileReadNewData file statOk = some (pieces.flatMap (lines newline), file') ∧
      Pieces newline lineLimit file.unread pieces ∧ file'.content = file.content ∧
      file'.pos = file.content.length := by
  have enough : file.unread.length < file.content.length - file.pos + 1 := by
    rw [TailedFile.unread, List.length_drop]
    exact Nat.lt_succ_self _
  have cleared : TailedFile.Valid { file with eof := false } :=
    ⟨inside, fun ended => by cases ended⟩
  have reads : ∀ {start : TailedFile}, start.Valid → start.content = file.content →
      start.pos = file.pos → ∃ pieces file',
        readLines (file.content.length - file.pos + 1) start =
          some (pieces.flatMap (lines newline), file') ∧
        Pieces newline lineLimit file.unread pieces ∧ file'.content = file.content ∧
        file'.pos = file.content.length := by
    intro start valid content pos
    have unread : start.unread = file.unread := by
      rw [TailedFile.unread, content, pos]
      rfl
    obtain ⟨pieces, file', run, cut, content', last, -⟩ :=
      readLines_spec _ valid (unread.symm ▸ noNul) (unread.symm ▸ enough)
    rw [unread] at cut
    rw [content] at content' last
    exact ⟨pieces, file', run, cut, content', last⟩
  rw [fileReadNewData]
  by_cases known : statOk = true
  · rw [if_pos known]
    by_cases grown : file.pos < file.content.length
    · rw [if_pos grown]
      exact reads cleared rfl rfl
    · rw [if_neg grown]
      have nothing : file.unread = [] := List.drop_eq_nil_iff.mpr (Nat.le_of_not_lt grown)
      by_cases ended : file.eof = true
      · rw [if_pos ended, nothing]
        exact ⟨[], file, rfl, Pieces.done, rfl, Nat.le_antisymm inside (Nat.le_of_not_lt grown)⟩
      · rw [if_neg ended]
        exact reads ⟨inside, fun _ => nothing⟩ rfl rfl
  · rw [if_neg known]
    exact reads cleared rfl rfl

/-! ## Runs -/

/-- What the polls of a run read, given what is appended and not read before it. -/
def pollParts : List UInt8 → List FileOp → List (List UInt8)
  | _, [] => []
  | pending, .append bytes :: ops => pollParts (pending ++ bytes) ops
  | pending, .poll _ :: ops => pending :: pollParts [] ops

/-- No poll of a run comes while a line is half written: what was appended since the poll before
    it ends a line, or nothing of the line is appended later. -/
def CleanPolls : List UInt8 → List FileOp → Prop
  | _, [] => True
  | pending, .append bytes :: ops => CleanPolls (pending ++ bytes) ops
  | pending, .poll _ :: ops =>
      CleanCut newline pending (appendedBytes ops) ∧ CleanPolls [] ops

theorem appendedBytes_append (bytes : List UInt8) (ops : List FileOp) :
    appendedBytes (.append bytes :: ops) = bytes ++ appendedBytes ops := List.flatMap_cons

theorem appendedBytes_poll (statOk : Bool) (ops : List FileOp) :
    appendedBytes (.poll statOk :: ops) = appendedBytes ops := List.flatMap_cons

/-- A run emits the lines of the pieces its polls read. -/
theorem fileRun_spec :
    ∀ (ops : List FileOp) {file : TailedFile}, file.pos ≤ file.content.length →
      (∀ byte ∈ file.unread ++ appendedBytes ops, byte ≠ 0) →
      ∃ pieces file', fileRun file ops = some (pieces.flatten.flatMap (lines newline), file') ∧
        List.Forall₂ (Pieces newline lineLimit) (pollParts file.unread ops) pieces := by
  intro ops
  induction ops with
  | nil =>
      intro file inside noNul
      exact ⟨[], file, rfl, List.Forall₂.nil⟩
  | cons op ops ih =>
      intro file inside noNul
      cases op with
      | append bytes =>
          have unread : TailedFile.unread { file with content := file.content ++ bytes } =
              file.unread ++ bytes := List.drop_append_of_le_length inside
          have inside' : file.pos ≤ (file.content ++ bytes).length := by
            rw [List.length_append]
            exact Nat.le_trans inside (Nat.le_add_right _ _)
          have noNul' : ∀ byte ∈ TailedFile.unread { file with content := file.content ++ bytes } ++
              appendedBytes ops, byte ≠ 0 := by
            rw [unread, List.append_assoc, ← appendedBytes_append]
            exact noNul
          obtain ⟨pieces, file', run, read⟩ := ih inside' noNul'
          rw [unread] at read
          exact ⟨pieces, file', run, read⟩
      | poll statOk =>
          rw [appendedBytes_poll] at noNul
          have noNulHere : ∀ byte ∈ file.unread, byte ≠ 0 :=
            fun byte member => noNul byte (List.mem_append_left _ member)
          obtain ⟨here, next, poll, readHere, content, last⟩ :=
            fileReadNewData_spec inside noNulHere statOk
          have atEnd : next.pos = next.content.length := by rw [last, content]
          have nothing : next.unread = [] := List.drop_eq_nil_iff.mpr (Nat.le_of_eq atEnd.symm)
          have noNul' : ∀ byte ∈ next.unread ++ appendedBytes ops, byte ≠ 0 := by
            intro byte member
            rw [nothing, List.nil_append] at member
            exact noNul byte (List.mem_append_right _ member)
          obtain ⟨pieces, file', run, read⟩ := ih (Nat.le_of_eq atEnd) noNul'
          rw [nothing] at read
          refine ⟨here :: pieces, file', ?_, List.Forall₂.cons readHere read⟩
          rw [fileRun, poll]
          dsimp only
          rw [run, Option.map_some, List.flatten_cons, List.flatMap_append]

/-- A run that ends with a poll reads everything. -/
theorem pollParts_flatten (statOk : Bool) :
    ∀ (ops : List FileOp) (pending : List UInt8),
      (pollParts pending (ops ++ [.poll statOk])).flatten = pending ++ appendedBytes ops := by
  intro ops
  induction ops with
  | nil =>
      intro pending
      show pending ++ [] = pending ++ []
      rfl
  | cons op ops ih =>
      intro pending
      cases op with
      | append bytes =>
          rw [List.cons_append, pollParts, ih, appendedBytes_append, List.append_assoc]
      | poll statOk' =>
          rw [List.cons_append, pollParts, List.flatten_cons, ih, appendedBytes_poll,
            List.nil_append]

theorem cleanPolls_iff (statOk : Bool) :
    ∀ (ops : List FileOp) (pending : List UInt8),
      CleanPolls pending (ops ++ [.poll statOk]) ↔
        AllClean newline (pollParts pending (ops ++ [.poll statOk])) := by
  intro ops
  induction ops with
  | nil =>
      intro pending
      exact Iff.rfl
  | cons op ops ih =>
      intro pending
      cases op with
      | append bytes => exact ih (pending ++ bytes)
      | poll statOk' =>
          have later : appendedBytes (ops ++ [.poll statOk]) = appendedBytes ops := by
            rw [appendedBytes, List.flatMap_append]
            exact List.append_nil _
          rw [List.cons_append, CleanPolls, pollParts, AllClean, ih, pollParts_flatten, later,
            List.nil_append]

/-- For everything appended to a tailed file, every way it comes in chunks and every schedule of
    polls with one at the end, polling ends, and the lines that become events are the non-empty
    lines appended exactly when no poll comes while a line is half written and no line is longer
    than the buffer. -/
theorem emittedLines_iff (content : List UInt8) (ops : List FileOp) (statOk : Bool)
    (noNul : ∀ byte ∈ appendedBytes ops, byte ≠ 0) :
    ∃ emitted file, fileRun (fileInputStart content) (ops ++ [.poll statOk]) =
        some (emitted, file) ∧
      (emitted = lines newline (appendedBytes ops) ↔
        CleanPolls [] (ops ++ [.poll statOk]) ∧
          ∀ line ∈ lines newline (appendedBytes ops), line.length ≤ lineLimit) := by
  have nothing : (fileInputStart content).unread = [] :=
    List.drop_eq_nil_iff.mpr (Nat.le_refl _)
  have noNul' : ∀ byte ∈ (fileInputStart content).unread ++
      appendedBytes (ops ++ [.poll statOk]), byte ≠ 0 := by
    intro byte member
    rw [nothing, List.nil_append, appendedBytes, List.flatMap_append] at member
    rcases List.mem_append.mp member with before | after
    · exact noNul byte before
    · cases after
  have inside : (fileInputStart content).pos ≤ (fileInputStart content).content.length :=
    Nat.le_refl _
  obtain ⟨pieces, file, run, read⟩ := fileRun_spec (ops ++ [.poll statOk]) inside noNul'
  rw [nothing] at read
  refine ⟨_, file, run, ?_⟩
  have compare := lines_pieces_iff read
  rw [pollParts_flatten, List.nil_append] at compare
  rw [compare, cleanPolls_iff]

/-- Four lines in four chunks: a line in two chunks with another one behind it, a poll that finds
    nothing, and a poll at the end of a line whose newline comes later. -/
def chunkedOps : List FileOp :=
  [.append [97, 98], .append [99, 10, 100, 10], .poll true, .poll true, .append [101, 102],
    .poll true, .append [10, 103, 104]]

theorem emittedLines_iff_chunkedOps :
    (fileRun (fileInputStart []) (chunkedOps ++ [.poll true])).map Prod.fst =
        some (lines newline (appendedBytes chunkedOps)) ∧
      lines newline (appendedBytes chunkedOps) = [[97, 98, 99], [100], [101, 102], [103, 104]] := by
  have four : lines newline (appendedBytes chunkedOps) =
      [[97, 98, 99], [100], [101, 102], [103, 104]] := by decide
  have noNul : (appendedBytes chunkedOps).all (fun byte => byte ≠ 0) = true := by decide
  obtain ⟨emitted, file, ran, whole⟩ := emittedLines_iff [] chunkedOps true fun byte member =>
    of_decide_eq_true (List.all_eq_true.mp noNul byte member)
  refine ⟨?_, four⟩
  rw [ran, Option.map_some, whole.mpr ⟨?_, ?_⟩]
  · exact ⟨by decide, by decide, by decide, by decide, trivial⟩
  · rw [four]
    decide

/-- `ab`, a poll, and the rest of the line. -/
def cutLineOps : List FileOp := [.append [97, 98], .poll true, .append [99, 10]]

/-- A poll in the middle of a line makes two events of it. -/
theorem cutLine_emitted :
    (fileRun (fileInputStart []) (cutLineOps ++ [.poll true])).map Prod.fst =
        some [[97, 98], [99]] ∧
      lines newline (appendedBytes cutLineOps) = [[97, 98, 99]] :=
  ⟨by decide, by decide⟩

end Nblex
