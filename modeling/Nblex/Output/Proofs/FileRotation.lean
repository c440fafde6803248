import Nblex.Output.FileOutput
import Nblex.Misc.Guarded
import Mathlib.Data.List.Flatten

/-!
# Rotation of an output file

A rotation renames the file with the time in its new name, and renaming replaces a file of that
name. So the rotated files and the current one hold all lines just in case no rotation is due while
a file that holds something has the name to rename to, as after another rotation in the same
second.
-/

namespace Nblex

/-! ## Runs -/

/-- A run: the output, the files, the names of the rotated files in the order of their last
    rotation, and the lines written so far. -/
structure FileRun where
  output : FileOutput
  files : Files
  rotated : List FileName
  written : List UInt8

/-- A write: the event and the clock. -/
structure FileWrite where
  event : Event
  now : Int

/-- The file that the lines are appended to. -/
def FileRun.current (run : FileRun) : FileName := fileAt run.output.path

/-- What the rotated files hold, in their order, and then the current one. -/
def FileRun.everything (run : FileRun) : List UInt8 :=
  run.rotated.flatMap run.files.contents ++ run.files.contents run.current

/-- The rotated files after a rotation; a file that is renamed to itself stays the current one. -/
def addRotated (current : FileName) (rotated : List FileName) (target : FileName) :
    List FileName :=
  if target = current then rotated else rotated.filter (· ≠ target) ++ [target]

/-- A write has been done. -/
def FileRun.after (run : FileRun) (done : FileWritten) : FileRun where
  output := done.output
  files := done.files
  rotated :=
    match done.rotated with
    | none => run.rotated
    | some path => addRotated run.current run.rotated (fileAt path)
  written := run.written ++ done.line

section Run

variable (strftime : Int → List Char) (toJsonString : Event → Option (List UInt8))

/-- One write of a run; `none` is undefined behaviour. -/
def fileStep (run : Option FileRun) (write : FileWrite) : Option FileRun :=
  run.bind (fun run =>
    (nblexFileOutputWrite strftime toJsonString run.output run.files write.event write.now).map
      run.after)

/-- The output on a file that is alone in its directory, with the settings of its rotation. -/
def newFileRun (path : List Char) (initial : List UInt8) (maxSizeMb maxAgeDays maxCount now : Int) :
    FileRun where
  output := nblexFileOutputSetRotation
    (nblexFileOutputNew (Directory.single ⟨fileAt path, now, initial⟩) path none now).1
    maxSizeMb maxAgeDays maxCount
  files := (nblexFileOutputNew (Directory.single ⟨fileAt path, now, initial⟩) path none now).2
  rotated := []
  written := []

/-- The rotated files in their order and then the current one hold exactly what was in the file
    and the lines written. -/
def LosesNothing (initial : List UInt8) (run : Option FileRun) : Prop :=
  ∃ state, run = some state ∧ state.everything = initial ++ state.written

/-- A write finds the file too large or too old. -/
def rotationDue (run : FileRun) (now : Int) : Bool :=
  sizeReached run.output run.files || (ageReached run.output now).getD false

/-- If a rotation is due, no other file that holds something has the name to rename to; and the
    maximal age in seconds is an `int`. -/
def FreeTarget (run : Option FileRun) (write : FileWrite) : Prop :=
  ∀ state ∈ run, state.output.rotationMaxAge * 24 * 60 * 60 < 2 ^ 31 ∧
    (rotationDue state write.now = true →
      fileAt (rotatedPath strftime state.output.path write.now) = state.current ∨
        state.files.contents (fileAt (rotatedPath strftime state.output.path write.now)) = [])

instance (run : Option FileRun) (write : FileWrite) : Decidable (FreeTarget strftime run write) :=
  inferInstanceAs (Decidable (∀ state ∈ run, _))

end Run

/-! ## A step -/

section Lists

variable {ν α : Type} [DecidableEq ν] {f : ν → List α} {name : ν}

/-- A name that holds nothing can be left out. -/
theorem flatMap_filter_ne (empty : f name = []) (names : List ν) :
    (names.filter (· ≠ name)).flatMap f = names.flatMap f := by
  induction names with
  | nil => rfl
  | cons first names ih =>
      rw [List.flatMap_cons, ← ih]
      by_cases same : first = name
      · rw [List.filter_cons_of_neg (by simpa using same), same, empty]
        rfl
      · rw [List.filter_cons_of_pos (by simpa using same), List.flatMap_cons]

/-- Less is held without a name that holds something. -/
theorem length_flatMap_filter_ne {names : List ν} (inside : name ∈ names)
    (holds : f name ≠ []) :
    ((names.filter (· ≠ name)).flatMap f).length < (names.flatMap f).length := by
  have sublist : ∀ rest : List ν,
      ((rest.filter (· ≠ name)).flatMap f).length ≤ (rest.flatMap f).length := fun rest =>
    (List.filter_sublist.flatMap f).length_le
  induction names with
  | nil => cases inside
  | cons first names ih =>
      rw [List.flatMap_cons, List.length_append]
      by_cases same : first = name
      · rw [List.filter_cons_of_neg (by simpa using same), same]
        have some := List.length_pos_of_ne_nil holds
        have rest := sublist names
        omega
      · rw [List.filter_cons_of_pos (by simpa using same), List.flatMap_cons, List.length_append]
        have later := ih ((List.mem_cons.mp inside).resolve_left (fun here => same here.symm))
        omega

end Lists

/-- The current file exists, the rotated files are others, each listed once, and no other file
    holds anything. -/
structure FileRun.Sound (run : FileRun) : Prop where
  has : run.files.Has run.current
  unlimited : run.output.rotationMaxCount ≤ 0
  apart : run.current ∉ run.rotated
  nodup : run.rotated.Nodup
  known : ∀ name, run.files.contents name ≠ [] → name = run.current ∨ name ∈ run.rotated

theorem cleanup_unlimited {output : FileOutput} (unlimited : output.rotationMaxCount ≤ 0)
    (files : Files) : cleanupOldRotatedFiles output files = files := by
  rw [cleanupOldRotatedFiles, if_pos unlimited]

/-- A rotation, with its output and files. -/
def FileRun.rotate (strftime : Int → List Char) (run : FileRun) (now : Int) : FileRun where
  output := { run.output with lastRotation := now, currentSize := 0 }
  files :=
    (run.files.rename run.current (fileAt (rotatedPath strftime run.output.path now))).openAppend
      run.current now
  rotated := addRotated run.current run.rotated (fileAt (rotatedPath strftime run.output.path now))
  written := run.written

/-- The text of an event, if it has one, is written as a line. -/
def FileRun.addLine (toJsonString : Event → Option (List UInt8)) (run : FileRun)
    (write : FileWrite) : FileRun :=
  match toJsonString write.event with
  | none => run
  | some jsonStr =>
      { run with
        output :=
          { run.output with currentSize := run.output.currentSize + (jsonStr ++ [10]).length }
        files := run.files.append run.current write.now (jsonStr ++ [10])
        written := run.written ++ (jsonStr ++ [10]) }

section Step

variable {strftime : Int → List Char} {toJsonString : Event → Option (List UInt8)}
  {run : FileRun} {write : FileWrite}

/-- A write rotates the file if that is due and then adds its line. -/
theorem fileStep_eq (strftime : Int → List Char) (toJsonString : Event → Option (List UInt8))
    (write : FileWrite) (unlimited : run.output.rotationMaxCount ≤ 0)
    (age : run.output.rotationMaxAge * 24 * 60 * 60 < 2 ^ 31) :
    fileStep strftime toJsonString (some run) write =
      some ((if rotationDue run write.now then run.rotate strftime write.now else run).addLine
        toJsonString write) := by
  obtain ⟨old, aged⟩ : ∃ old, ageReached run.output write.now = some old := by
    by_cases disabled : run.output.rotationMaxAge ≤ 0
    · exact ⟨false, if_pos disabled⟩
    · rw [ageReached, if_neg disabled, if_pos age]
      exact ⟨_, rfl⟩
  have kept : ∀ files, cleanupOldRotatedFiles run.output files = files :=
    cleanup_unlimited unlimited
  simp only [fileStep, Option.bind_some, nblexFileOutputWrite, rotateFileIfNeeded, rotationDue,
    aged, Option.map_some, Option.getD_some, kept]
  cases due : sizeReached run.output run.files || old with
  | false =>
      simp only [Bool.false_eq_true, if_false, FileRun.addLine, FileRun.after]
      cases toJsonString write.event with
      | none => simp
      | some jsonStr => rfl
  | true =>
      simp only [if_true, FileRun.addLine, FileRun.after]
      cases toJsonString write.event with
      | none => simp [FileRun.rotate, FileRun.current]
      | some jsonStr => rfl

theorem fileStep_undefined (age : ¬run.output.rotationMaxAge * 24 * 60 * 60 < 2 ^ 31) :
    fileStep strftime toJsonString (some run) write = none := by
  have positive : ¬run.output.rotationMaxAge ≤ 0 := by omega
  simp only [fileStep, Option.bind_some, nblexFileOutputWrite, rotateFileIfNeeded, ageReached,
    if_neg positive, if_neg age, Option.map_none]

theorem addLine_everything (toJsonString : Event → Option (List UInt8)) (write : FileWrite)
    (has : run.files.Has run.current) (apart : run.current ∉ run.rotated) :
    ∃ line, (run.addLine toJsonString write).everything = run.everything ++ line ∧
      (run.addLine toJsonString write).written = run.written ++ line := by
  unfold FileRun.addLine
  cases toJsonString write.event with
  | none => exact ⟨[], (List.append_nil _).symm, (List.append_nil _).symm⟩
  | some jsonStr =>
      refine ⟨jsonStr ++ [10], ?_, rfl⟩
      have others : run.rotated.flatMap
          (run.files.append run.current write.now (jsonStr ++ [10])).contents =
            run.rotated.flatMap run.files.contents := by
        apply List.flatMap_congr
        intro name member
        apply Directory.contents_append_other
        rintro rfl
        exact apart member
      show run.rotated.flatMap _ ++ Directory.contents _ run.current = _
      rw [others, Directory.contents_append has, FileRun.everything, List.append_assoc]

/-- A line goes to the current file only. -/
theorem addLine_contents_other {name : FileName} (other : name ≠ run.current) :
    (run.addLine toJsonString write).files.contents name = run.files.contents name := by
  unfold FileRun.addLine
  cases toJsonString write.event with
  | none => rfl
  | some jsonStr => exact Directory.contents_append_other run.files other _ _

theorem addLine_contents {jsonStr : List UInt8} (text : toJsonString write.event = some jsonStr)
    (has : run.files.Has run.current) :
    (run.addLine toJsonString write).files.contents run.current =
      run.files.contents run.current ++ (jsonStr ++ [10]) := by
  unfold FileRun.addLine
  rw [text]
  exact Directory.contents_append has _ _

theorem addLine_sound (toJsonString : Event → Option (List UInt8)) (write : FileWrite)
    (sound : run.Sound) : (run.addLine toJsonString write).Sound := by
  unfold FileRun.addLine
  cases toJsonString write.event with
  | none => exact sound
  | some jsonStr =>
      refine ⟨Directory.append_has sound.has _ _, sound.unlimited, sound.apart, sound.nodup, ?_⟩
      intro name holds
      by_cases same : name = run.current
      · exact Or.inl same
      · refine sound.known name ?_
        rw [← Directory.contents_append_other run.files same write.now (jsonStr ++ [10])]
        exact holds

/-- The target of a rotation. -/
def FileRun.target (strftime : Int → List Char) (run : FileRun) (now : Int) : FileName :=
  fileAt (rotatedPath strftime run.output.path now)

section Rotate

variable {now : Int}

theorem rotate_self (same : run.target strftime now = run.current) :
    (run.rotate strftime now).everything = run.everything ∧
      (run.Sound → (run.rotate strftime now).Sound) := by
  have rotated : (run.rotate strftime now).rotated = run.rotated := if_pos same
  have files : (run.rotate strftime now).files = run.files.openAppend run.current now := by
    have target : fileAt (rotatedPath strftime run.output.path now) = run.current := same
    rw [FileRun.rotate, target, Directory.rename_self]
  have contents : (run.rotate strftime now).files.contents = run.files.contents := by
    funext name
    rw [files, Directory.contents_openAppend]
  have current : (run.rotate strftime now).current = run.current := rfl
  refine ⟨?_, fun sound => ?_⟩
  · rw [FileRun.everything, rotated, contents, current, FileRun.everything]
  · refine ⟨?_, sound.unlimited, ?_, ?_, ?_⟩
    · rw [files]
      exact Directory.openAppend_has _ _ _
    · rw [rotated]
      exact sound.apart
    · rw [rotated]
      exact sound.nodup
    · rw [rotated, contents]
      exact sound.known

variable (other : run.target strftime now ≠ run.current)

include other

theorem rotate_rotated : (run.rotate strftime now).rotated =
    run.rotated.filter (· ≠ run.target strftime now) ++ [run.target strftime now] := if_neg other

/-- What the files hold after a rotation to another name. -/
theorem rotate_contents (has : run.files.Has run.current) (name : FileName) :
    (run.rotate strftime now).files.contents name =
      if name = run.target strftime now then run.files.contents run.current
      else if name = run.current then [] else run.files.contents name := by
  have different : run.current ≠ run.target strftime now := other.symm
  show (Directory.openAppend (run.files.rename run.current (run.target strftime now))
    run.current now).contents name = _
  rw [Directory.contents_openAppend]
  by_cases isTarget : name = run.target strftime now
  · rw [if_pos isTarget, isTarget, Directory.contents_rename_new different has]
  · rw [if_neg isTarget]
    by_cases isCurrent : name = run.current
    · rw [if_pos isCurrent, isCurrent, Directory.contents_rename_old different has]
    · rw [if_neg isCurrent, Directory.contents_rename_other isCurrent isTarget]

theorem rotate_sound (sound : run.Sound) : (run.rotate strftime now).Sound := by
  have rotated := rotate_rotated other
  refine ⟨Directory.openAppend_has _ _ _, sound.unlimited, ?_, ?_, ?_⟩
  · rw [rotated, List.mem_append, not_or]
    refine ⟨fun inside => sound.apart (List.mem_of_mem_filter inside), ?_⟩
    intro isTarget
    exact other (List.mem_singleton.mp isTarget).symm
  · rw [rotated]
    refine (sound.nodup.filter _).append (List.nodup_singleton _) ?_
    apply List.disjoint_singleton.mpr
    intro inside
    exact of_decide_eq_true (List.mem_filter.mp inside).2 rfl
  · intro name holds
    rw [rotate_contents other sound.has] at holds
    rw [rotated, List.mem_append, List.mem_singleton]
    by_cases isTarget : name = run.target strftime now
    · exact Or.inr (Or.inr isTarget)
    · rw [if_neg isTarget] at holds
      by_cases isCurrent : name = run.current
      · exact Or.inl isCurrent
      · rw [if_neg isCurrent] at holds
        refine Or.inr (Or.inl ?_)
        rcases sound.known name holds with same | inside
        · exact absurd same isCurrent
        · exact List.mem_filter.mpr ⟨inside, decide_eq_true isTarget⟩

/-- Everything that is held after a rotation: the files but the target, and the current one. -/
theorem rotate_everything (sound : run.Sound) : (run.rotate strftime now).everything =
    (run.rotated.filter (· ≠ run.target strftime now)).flatMap run.files.contents ++
      run.files.contents run.current := by
  have contents := rotate_contents other sound.has
  have others : (run.rotated.filter (· ≠ run.target strftime now)).flatMap
      (run.rotate strftime now).files.contents =
        (run.rotated.filter (· ≠ run.target strftime now)).flatMap run.files.contents := by
    apply List.flatMap_congr
    intro name member
    obtain ⟨inside, notTarget⟩ := List.mem_filter.mp member
    have notCurrent : name ≠ run.current := by
      rintro rfl
      exact sound.apart inside
    rw [contents, if_neg (of_decide_eq_true notTarget), if_neg notCurrent]
  have current : (run.rotate strftime now).files.contents (run.rotate strftime now).current =
      [] := by
    show (run.rotate strftime now).files.contents run.current = []
    rw [contents, if_neg other.symm, if_pos rfl]
  rw [FileRun.everything, rotate_rotated other, List.flatMap_append, others, current,
    List.append_nil, List.flatMap_singleton, contents, if_pos rfl]

end Rotate

/-- A rotation to a name that is free leaves everything held. -/
theorem rotate_keeps {now : Int} (sound : run.Sound)
    (free : run.target strftime now = run.current ∨
      run.files.contents (run.target strftime now) = []) :
    (run.rotate strftime now).Sound ∧ (run.rotate strftime now).everything = run.everything := by
  by_cases same : run.target strftime now = run.current
  · exact ⟨(rotate_self same).2 sound, (rotate_self same).1⟩
  · refine ⟨rotate_sound same sound, ?_⟩
    rw [rotate_everything same sound, FileRun.everything,
      flatMap_filter_ne (free.resolve_left same)]

/-- A rotation never leaves more held than before, and less if the name is not free. -/
theorem rotate_length (strftime : Int → List Char) (now : Int) (sound : run.Sound) :
    (run.rotate strftime now).Sound ∧
      (run.rotate strftime now).everything.length ≤ run.everything.length ∧
      (¬(run.target strftime now = run.current ∨
          run.files.contents (run.target strftime now) = []) →
        (run.rotate strftime now).everything.length < run.everything.length) := by
  by_cases free : run.target strftime now = run.current ∨
      run.files.contents (run.target strftime now) = []
  · obtain ⟨kept, same⟩ := rotate_keeps sound free
    exact ⟨kept, Nat.le_of_eq (congrArg List.length same), fun taken => absurd free taken⟩
  · obtain ⟨other, holds⟩ := not_or.mp free
    have inside : run.target strftime now ∈ run.rotated :=
      (sound.known _ holds).resolve_left other
    have shorter := length_flatMap_filter_ne inside holds
    have lost : (run.rotate strftime now).everything.length < run.everything.length := by
      rw [rotate_everything other sound, FileRun.everything, List.length_append,
        List.length_append]
      exact Nat.add_lt_add_right shorter _
    exact ⟨rotate_sound other sound, Nat.le_of_lt lost, fun _ => lost⟩

end Step

/-! ## What a run loses -/

/-- Something has been lost, or the behaviour has become undefined. -/
def Lost (initial : List UInt8) (run : Option FileRun) : Prop :=
  ∀ state ∈ run, state.Sound ∧
    state.everything.length < (initial ++ state.written).length

/-- Nothing has been lost so far. -/
def Holding (initial : List UInt8) (run : Option FileRun) : Prop :=
  ∃ state, run = some state ∧ state.Sound ∧ state.everything = initial ++ state.written

section Loss

variable {strftime : Int → List Char} {toJsonString : Event → Option (List UInt8)}
  {initial : List UInt8}

theorem fileStep_keeps (run : Option FileRun) (write : FileWrite) (holding : Holding initial run)
    (free : FreeTarget strftime run write) :
    Holding initial (fileStep strftime toJsonString run write) := by
  obtain ⟨state, rfl, sound, held⟩ := holding
  obtain ⟨age, target⟩ := free state rfl
  rw [fileStep_eq strftime toJsonString write sound.unlimited age]
  refine ⟨_, rfl, ?_⟩
  cases due : rotationDue state write.now with
  | false =>
      obtain ⟨line, grown, written⟩ := addLine_everything toJsonString write sound.has sound.apart
      refine ⟨addLine_sound toJsonString write sound, ?_⟩
      rw [if_neg Bool.false_ne_true, grown, written, held, List.append_assoc]
  | true =>
      obtain ⟨rotated, same⟩ := rotate_keeps sound (target due)
      obtain ⟨line, grown, written⟩ :=
        addLine_everything toJsonString write rotated.has rotated.apart
      refine ⟨addLine_sound toJsonString write rotated, ?_⟩
      rw [if_pos rfl, grown, written, same, held, List.append_assoc]
      rfl

/-- A line that is added does not bring back what was lost. -/
theorem addLine_lost {state : FileRun} (write : FileWrite) (sound : state.Sound)
    (short : state.everything.length < (initial ++ state.written).length) :
    (state.addLine toJsonString write).Sound ∧
      (state.addLine toJsonString write).everything.length <
        (initial ++ (state.addLine toJsonString write).written).length := by
  obtain ⟨line, grown, written⟩ := addLine_everything toJsonString write sound.has sound.apart
  refine ⟨addLine_sound toJsonString write sound, ?_⟩
  rw [grown, written, ← List.append_assoc, List.length_append, List.length_append]
  exact Nat.add_lt_add_right short _

theorem fileStep_breaks (run : Option FileRun) (write : FileWrite) (holding : Holding initial run)
    (taken : ¬FreeTarget strftime run write) :
    Lost initial (fileStep strftime toJsonString run write) := by
  obtain ⟨state, rfl, sound, held⟩ := holding
  by_cases age : state.output.rotationMaxAge * 24 * 60 * 60 < 2 ^ 31
  · rw [fileStep_eq strftime toJsonString write sound.unlimited age]
    rintro _ ⟨⟩
    by_cases due : rotationDue state write.now = true
    · rw [if_pos due]
      have notFree : ¬(state.target strftime write.now = state.current ∨
          state.files.contents (state.target strftime write.now) = []) := by
        intro free
        apply taken
        rintro _ ⟨⟩
        exact ⟨age, fun _ => free⟩
      obtain ⟨rotated, -, lost⟩ := rotate_length strftime write.now sound
      have less := lost notFree
      rw [held] at less
      exact addLine_lost write rotated less
    · refine absurd ?_ taken
      rintro _ ⟨⟩
      exact ⟨age, fun here => absurd here due⟩
  · rw [fileStep_undefined age]
    nofun

theorem fileStep_stays (run : Option FileRun) (write : FileWrite) (lost : Lost initial run) :
    Lost initial (fileStep strftime toJsonString run write) := by
  cases run with
  | none => nofun
  | some state =>
      obtain ⟨sound, short⟩ := lost state rfl
      by_cases age : state.output.rotationMaxAge * 24 * 60 * 60 < 2 ^ 31
      · rw [fileStep_eq strftime toJsonString write sound.unlimited age]
        rintro _ ⟨⟩
        by_cases due : rotationDue state write.now = true
        · rw [if_pos due]
          obtain ⟨rotated, less, -⟩ := rotate_length strftime write.now sound
          exact addLine_lost write rotated (Nat.lt_of_le_of_lt less short)
        · rw [if_neg due]
          exact addLine_lost write sound short
      · rw [fileStep_undefined age]
        nofun

theorem newFileRun_holding (path : List Char) (maxSizeMb maxAgeDays : Int) {maxCount : Int}
    (unlimited : maxCount ≤ 0) (now : Int) :
    Holding initial (some (newFileRun path initial maxSizeMb maxAgeDays maxCount now)) := by
  refine ⟨_, rfl, ⟨Directory.openAppend_has _ _ _, unlimited, List.not_mem_nil, List.nodup_nil, ?_⟩,
    ?_⟩
  · intro name holds
    refine Or.inl (by_contra fun other => holds ?_)
    exact (Directory.contents_openAppend _ _ _ _).trans
      (Directory.contents_single_other ⟨fileAt path, now, initial⟩ other)
  · refine Eq.trans ?_ (List.append_nil _).symm
    exact (Directory.contents_openAppend _ _ _ _).trans
      (Directory.contents_single ⟨fileAt path, now, initial⟩)

/-- The rotated files in the order of rotation and then the current one hold exactly what was in
    the file and the lines written, just in case every rotation finds a free name. -/
theorem rotation_losesNothing_iff (strftime : Int → List Char)
    (toJsonString : Event → Option (List UInt8)) (path : List Char) (initial : List UInt8)
    (maxSizeMb maxAgeDays maxCount now : Int) (unlimited : maxCount ≤ 0)
    (writes : List FileWrite) :
    LosesNothing initial (writes.foldl (fileStep strftime toJsonString)
        (some (newFileRun path initial maxSizeMb maxAgeDays maxCount now))) ↔
      Guarded.Meets (fileStep strftime toJsonString) (FreeTarget strftime)
        (some (newFileRun path initial maxSizeMb maxAgeDays maxCount now)) writes := by
  refine Guarded.foldl_claimed_iff (Holding initial) (Lost initial) fileStep_keeps fileStep_breaks
    fileStep_stays ?_ ?_ (newFileRun_holding path maxSizeMb maxAgeDays unlimited now) writes
  · rintro _ ⟨state, rfl, -, held⟩
    exact ⟨state, rfl, held⟩
  · rintro _ lost ⟨state, rfl, held⟩
    have short := (lost state rfl).2
    rw [held] at short
    exact Nat.lt_irrefl _ short

end Loss

/-! ## Two rotations in a second -/

section Tail

variable (front : List Char) {tail : List Char} (nonempty : tail ≠ []) (plain : '/' ∉ tail)

include nonempty plain

theorem rdropWhile_slash_append : (front ++ tail).rdropWhile (· = '/') = front ++ tail := by
  rw [List.rdropWhile_eq_self_iff]
  intro notEmpty slash
  rw [List.getLast_append_of_ne_nil notEmpty nonempty] at slash
  have last := of_decide_eq_true slash
  exact plain (last ▸ List.getLast_mem nonempty)

/-- A path that ends in a name. -/
theorem basename_append :
    basename (front ++ tail) = front.rtakeWhile (· ≠ '/') ++ tail := by
  have visible : ∀ c ∈ tail.reverse, decide (c ≠ '/') = true := by
    intro c member
    refine decide_eq_true ?_
    rintro rfl
    exact plain (List.mem_reverse.mp member)
  have notEmpty : front ++ tail ≠ [] := List.append_ne_nil_of_right_ne_nil _ nonempty
  rw [basename, if_neg notEmpty]
  rw [rdropWhile_slash_append front nonempty plain, if_neg notEmpty, List.rtakeWhile,
    List.rtakeWhile, List.reverse_append, List.takeWhile_append_of_pos visible,
    List.reverse_append, List.reverse_reverse]

end Tail

/-- Rotations in different seconds rename to different names if the path leaves room for the
    time. -/
theorem rotatedPath_second {strftime : Int → List Char} (distinct : Function.Injective strftime)
    (stamps : ∀ now, (strftime now).length = 15 ∧ '/' ∉ strftime now) {path : List Char}
    (room : path.length ≤ 1007) {now now' : Int}
    (same : fileAt (rotatedPath strftime path now) = fileAt (rotatedPath strftime path now')) :
    now = now' := by
  have base : ∀ now, basename (rotatedPath strftime path now) =
      (path ++ ['.']).rtakeWhile (· ≠ '/') ++ strftime now := by
    intro now
    obtain ⟨length, plain⟩ := stamps now
    have nonempty : strftime now ≠ [] := by
      intro none
      rw [none] at length
      cases length
    have whole : rotatedPath strftime path now = (path ++ ['.']) ++ strftime now := by
      rw [rotatedPath, snprintf, List.take_of_length_le, List.append_assoc]
      · rfl
      · rw [List.length_append, List.length_cons, length]
        omega
    rw [whole, basename_append _ nonempty plain]
  have bases := congrArg FileName.base same
  rw [fileAt, fileAt] at bases
  dsimp only at bases
  rw [base now, base now'] at bases
  exact distinct (List.append_cancel_left bases)

/-- What `strftime` makes of the second 0. -/
def epochStamp : List Char := "19700101_000000".toList

/-- An event without data. -/
def plainEvent : Event := ⟨0, .log, 1000, none, none⟩

/-- The seconds of three days that follow each other. -/
def dayStamp (now : Int) : List Char :=
  if now < 86400 then epochStamp
  else if now < 172800 then "19700102_000000".toList
  else "19700103_000000".toList

/-- Four writes, with a rotation after a day and another one after two days. -/
def dailyWrites : List FileWrite :=
  [⟨plainEvent, 0⟩, ⟨plainEvent, 86400⟩, ⟨plainEvent, 86401⟩, ⟨plainEvent, 172800⟩]

theorem rotation_losesNothing_dailyWrites :
    LosesNothing [] (dailyWrites.foldl (fileStep dayStamp (fun _ => some [120]))
        (some (newFileRun "out.log".toList [] 0 1 0 0))) ∧
      (dailyWrites.foldl (fileStep dayStamp (fun _ => some [120]))
          (some (newFileRun "out.log".toList [] 0 1 0 0))).map
        (fun run => run.files.files.map fun file => (String.ofList file.name.base, file.content)) =
          some [("out.log.19700102_000000", [120, 10]),
            ("out.log.19700103_000000", [120, 10, 120, 10]), ("out.log", [120, 10])] := by
  refine ⟨(rotation_losesNothing_iff dayStamp (fun _ => some [120]) "out.log".toList [] 0 1 0 0
    (by decide) dailyWrites).mpr ⟨by decide, by decide, by decide, by decide, trivial⟩, by decide⟩

/-- The run before the first write on a file that holds a text, with a limit of a megabyte. -/
def filledRun (text : List UInt8) : FileRun := newFileRun "out.log".toList text 1 0 0 0

section Megabyte

variable {text : List UInt8}

theorem filledRun_contents (name : FileName) : (filledRun text).files.contents name =
    if name = fileAt "out.log".toList then text else [] := by
  have opened : (filledRun text).files.contents name =
      (Directory.single ⟨fileAt "out.log".toList, 0, text⟩ : Files).contents name :=
    Directory.contents_openAppend _ _ _ _
  rw [opened]
  split
  · next same =>
    rw [same]
    exact Directory.contents_single ⟨fileAt "out.log".toList, 0, text⟩
  · next other => exact Directory.contents_single_other _ other

/-- A file that holds a megabyte is too large. -/
theorem rotationDue_of_megabyte {run : FileRun} (size : run.output.rotationMaxSize = 1)
    (large : 1024 * 1024 ≤ (run.files.contents run.current).length) (now : Int) :
    rotationDue run now = true := by
  have reached : sizeReached run.output run.files = true := by
    refine decide_eq_true ⟨by rw [size]; decide, ?_⟩
    have atLeast : 1 ≤ (run.files.contents run.current).length / (1024 * 1024) :=
      (Nat.one_le_div_iff (by decide)).mpr large
    rw [size]
    exact_mod_cast atLeast
  rw [rotationDue, reached, Bool.true_or]

/-- After a rotation and the write of a megabyte the file is too large again, and the name that the
    next rotation of this second takes is that of the old file. -/
theorem rotationDue_again {run : FileRun} (sound : run.Sound)
    (size : run.output.rotationMaxSize = 1) {strftime : Int → List Char}
    (other : run.target strftime 0 ≠ run.current) (event : Event)
    (long : 1024 * 1024 ≤ text.length) :
    rotationDue ((run.rotate strftime 0).addLine (fun _ => some text) ⟨event, 0⟩) 0 = true ∧
      ((run.rotate strftime 0).addLine (fun _ => some text) ⟨event, 0⟩).files.contents
        (run.target strftime 0) = run.files.contents run.current := by
  have large : ((run.rotate strftime 0).addLine (fun _ => some text)
      ⟨event, 0⟩).files.contents run.current =
        (run.rotate strftime 0).files.contents run.current ++ (text ++ [10]) :=
    addLine_contents rfl (rotate_sound other sound).has
  have limit : ((run.rotate strftime 0).addLine (fun _ => some text)
      ⟨event, 0⟩).output.rotationMaxSize = 1 := size
  have elsewhere : run.target strftime 0 ≠ (run.rotate strftime 0).current := other
  constructor
  · refine rotationDue_of_megabyte limit ?_ 0
    have length := congrArg List.length large
    rw [List.length_append, List.length_append] at length
    refine Nat.le_trans ?_ (Nat.le_of_eq length.symm)
    omega
  · rw [addLine_contents_other elsewhere, rotate_contents other sound.has, if_pos rfl]

/-- Each of two writes of a megabyte in one second finds the file too large, so that the second
    rotation replaces the file of the first. -/
theorem megabytes_lost (long : 1024 * 1024 ≤ text.length) {strftime : Int → List Char}
    (stamp : strftime 0 = epochStamp) :
    ¬LosesNothing text ([⟨plainEvent, 0⟩, ⟨plainEvent, 0⟩].foldl
      (fileStep strftime (fun _ => text)) (some (filledRun text))) := by
  have holding : Holding text (some (filledRun text)) :=
    newFileRun_holding "out.log".toList 1 0 (Int.le_refl 0) 0
  have sound : (filledRun text).Sound := by
    obtain ⟨state, same, sound, -⟩ := holding
    rw [Option.some.inj same]
    exact sound
  have target : (filledRun text).target strftime 0 = fileAt "out.log.19700101_000000".toList := by
    rw [FileRun.target, rotatedPath, stamp]
    rfl
  have other : (filledRun text).target strftime 0 ≠ (filledRun text).current := by
    rw [target]
    show fileAt "out.log.19700101_000000".toList ≠ fileAt "out.log".toList
    decide
  have young : (filledRun text).output.rotationMaxAge * 24 * 60 * 60 < 2 ^ 31 := by
    show (0 : Int) * 24 * 60 * 60 < 2 ^ 31
    decide
  have free : FreeTarget strftime (some (filledRun text)) ⟨plainEvent, 0⟩ := by
    rintro _ ⟨⟩
    refine ⟨young, fun _ => Or.inr ?_⟩
    exact (filledRun_contents ((filledRun text).target strftime 0)).trans (if_neg other)
  have full : (filledRun text).files.contents (filledRun text).current = text :=
    (filledRun_contents (filledRun text).current).trans (if_pos rfl)
  have due : rotationDue (filledRun text) 0 = true :=
    rotationDue_of_megabyte rfl
      (Nat.le_trans long (Nat.le_of_eq (congrArg List.length full.symm))) 0
  have first := fileStep_eq strftime (fun _ => some text) ⟨plainEvent, 0⟩ sound.unlimited young
  rw [if_pos due] at first
  have kept : Holding text (fileStep strftime (fun _ => some text) (some (filledRun text))
      ⟨plainEvent, 0⟩) := fileStep_keeps _ _ holding free
  have taken : ¬FreeTarget strftime (fileStep strftime (fun _ => some text)
      (some (filledRun text)) ⟨plainEvent, 0⟩) ⟨plainEvent, 0⟩ := by
    rw [first]
    intro freeAgain
    obtain ⟨-, nothing⟩ := freeAgain _ rfl
    obtain ⟨dueAgain, held⟩ := rotationDue_again sound rfl other plainEvent long
    rw [full] at held
    rcases nothing dueAgain with same | empty
    · exact other same
    · have none : text = [] := held.symm.trans empty
      rw [none] at long
      exact absurd long (by decide)
  have lost : Lost text (fileStep strftime (fun _ => some text)
      (fileStep strftime (fun _ => some text) (some (filledRun text)) ⟨plainEvent, 0⟩)
      ⟨plainEvent, 0⟩) :=
    fileStep_breaks _ _ kept taken
  rintro ⟨state, reached, held⟩
  rw [List.foldl_cons, List.foldl_cons, List.foldl_nil] at reached
  have short := (lost state reached).2
  rw [held] at short
  exact Nat.lt_irrefl _ short

end Megabyte

/-- With two writes in one second something is lost. -/
theorem sameSecond_overwrites :
    ¬∃ strftime : Int → List Char, strftime 0 = epochStamp ∧
      ∀ (toJsonString : Event → Option (List UInt8)) (initial : List UInt8)
        (writes : List FileWrite),
        LosesNothing initial
          (writes.foldl (fileStep strftime toJsonString) (some (filledRun initial))) := by
  rintro ⟨strftime, stamp, all⟩
  have long : 1024 * 1024 ≤ (List.replicate (1024 * 1024) (97 : UInt8)).length :=
    Nat.le_of_eq List.length_replicate.symm
  exact megabytes_lost long stamp (all _ _ _)

end Nblex
