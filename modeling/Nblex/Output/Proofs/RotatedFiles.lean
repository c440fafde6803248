import Nblex.Output.RotatedFiles
import Nblex.Output.Proofs.FileRotation

/-!
# The newest rotated files are kept

Where the paths fit their buffers, as many of the files that are recognised as rotated are left as
the limit allows, the newest ones, and nothing else changes. What is recognised need not have been
renamed by the output.
-/

namespace Nblex

theorem compareRotatedFiles_le_iff (fa fb : RotatedFileEntry) :
    compareRotatedFiles fa fb ≤ 0 ↔ fb.mtime ≤ fa.mtime := by
  rw [compareRotatedFiles]
  split
  · omega
  · split
    · omega
    · omega

/-- The comparator orders the entries as a total preorder. -/
theorem compareRotatedFiles_consistent : Consistent compareRotatedFiles where
  swap := by
    intro a b
    rw [compareRotatedFiles, compareRotatedFiles]
    rcases lt_trichotomy a.mtime b.mtime with less | same | greater
    · rw [if_neg (not_lt.mpr less.le), if_pos less, if_pos less]
      decide
    · simp [same]
    · rw [if_pos greater, if_neg (not_lt.mpr greater.le), if_pos greater]
      decide
  trans := by
    intro a b c ab bc
    rw [compareRotatedFiles_le_iff] at ab bc ⊢
    exact bc.trans ab

/-! ## The array -/

/-- The capacity is no less than what is in the array, and the array is never written behind it. -/
theorem EntryArray.add_eq {array : EntryArray} (inside : array.files.length ≤ array.filesCapacity)
    (entry : RotatedFileEntry) :
    ∃ capacity, array.add entry = some ⟨array.files ++ [entry], capacity⟩ ∧
      array.files.length + 1 ≤ capacity := by
  rw [EntryArray.add]
  by_cases full : array.filesCapacity ≤ array.files.length
  · by_cases empty : array.filesCapacity = 0
    · have first : array.files.length < 16 := by omega
      exact ⟨16, by simp only [if_pos full, if_pos empty, if_pos first], first⟩
    · have double : array.files.length < array.filesCapacity * 2 := by omega
      exact ⟨array.filesCapacity * 2, by simp only [if_pos full, if_neg empty, if_pos double],
        double⟩
  · have room : array.files.length < array.filesCapacity := by omega
    exact ⟨array.filesCapacity, by simp only [if_neg full, if_pos room], room⟩

/-- The loop over the directory collects the entries of the names that are recognised. -/
theorem collectNames_eq (files : Files) (dir base : List Char) (names : List (List Char)) :
    ∀ {array : EntryArray}, array.files.length ≤ array.filesCapacity →
      ∃ capacity, names.foldlM (collectName files dir base) array =
        some ⟨array.files ++ (names.filter (looksRotated base)).filterMap (rotatedEntry files dir),
          capacity⟩ := by
  induction names with
  | nil =>
      intro array _
      exact ⟨array.filesCapacity, by simp⟩
  | cons name names ih =>
      intro array inside
      rw [List.foldlM_cons, collectName]
      by_cases rotated : looksRotated base name = true
      · rw [if_pos rotated, List.filter_cons_of_pos rotated, List.filterMap_cons]
        cases rotatedEntry files dir name with
        | none => exact ih inside
        | some entry =>
            obtain ⟨capacity, added, room⟩ := EntryArray.add_eq inside entry
            obtain ⟨final, collected⟩ := @ih ⟨array.files ++ [entry], capacity⟩
              (by simpa using room)
            refine ⟨final, ?_⟩
            dsimp only
            rw [added]
            simpa using collected
      · rw [if_neg rotated, List.filter_cons_of_neg rotated]
        exact ih inside

/-! ## Paths in the directory -/

theorem basename_ne_nil (path : List Char) : basename path ≠ [] := by
  rw [basename]
  split
  · exact List.cons_ne_nil _ _
  · split
    · exact List.cons_ne_nil _ _
    · rename_i notEmpty
      intro none
      rw [List.rtakeWhile_eq_nil_iff] at none
      have last := List.rdropWhile_last_not (fun c => decide (c = '/')) path notEmpty
      have slash := none notEmpty
      simp_all

/-- The directory of a path is the root, or it does not end in a slash. -/
theorem dirname_plain (path : List Char) :
    dirname path = ['/'] ∨
      dirname path ≠ [] ∧ (dirname path).rdropWhile (· = '/') = dirname path := by
  rw [dirname]
  split
  · exact .inr ⟨List.cons_ne_nil _ _, rfl⟩
  · split
    · exact .inl rfl
    · split
      · exact .inr ⟨List.cons_ne_nil _ _, rfl⟩
      · split
        · exact .inl rfl
        · rename_i notEmpty
          exact .inr ⟨notEmpty, List.rdropWhile_idempotent _ _⟩

theorem dirname_ne_nil (path : List Char) : dirname path ≠ [] := by
  rcases dirname_plain path with root | ⟨notEmpty, -⟩
  · rw [root]
    exact List.cons_ne_nil _ _
  · exact notEmpty

/-- The path of a name in the directory of a path. -/
theorem fileAt_dirname (path : List Char) {name : List Char} (nonempty : name ≠ [])
    (plain : '/' ∉ name) : fileAt (dirname path ++ '/' :: name) = ⟨dirname path, name⟩ := by
  have split : dirname path ++ '/' :: name = (dirname path ++ ['/']) ++ name := by simp
  have base : basename ((dirname path ++ ['/']) ++ name) = name := by
    rw [basename_append _ nonempty plain, List.rtakeWhile_concat_neg _ _ _ (by decide)]
    rfl
  have visible : ∀ c ∈ name.reverse, decide (c ≠ '/') = true := by
    intro c member
    refine decide_eq_true ?_
    rintro rfl
    exact plain (List.mem_reverse.mp member)
  have parent : ((dirname path ++ ['/']) ++ name).rdropWhile (· ≠ '/') = dirname path ++ ['/'] := by
    rw [List.rdropWhile, List.reverse_append, List.dropWhile_append_of_pos visible]
    simp
  have notEmpty : (dirname path ++ ['/']) ++ name ≠ [] :=
    List.append_ne_nil_of_right_ne_nil _ nonempty
  have dir : dirname ((dirname path ++ ['/']) ++ name) = dirname path := by
    rw [dirname, rdropWhile_slash_append _ nonempty plain, parent, if_neg notEmpty,
      if_neg notEmpty, if_neg (by simp), List.rdropWhile_concat_pos _ _ _ (by decide)]
    rcases dirname_plain path with root | ⟨some, plainEnd⟩
    · rw [root]
      rfl
    · rw [plainEnd, if_neg some]
  rw [split, fileAt, base, dir]

/-! ## What is removed -/

theorem rotatedEntries_eq (files : Files) (path : List Char) :
    rotatedEntries files path =
      ((namesIn files (snprintf 1024 (dirname path))).filter
        (looksRotated (snprintf 256 (basename path)))).filterMap
          (rotatedEntry files (snprintf 1024 (dirname path))) := rfl

theorem snprintf_ne_nil {size : Nat} {text : List Char} (room : 2 ≤ size) (some : text ≠ []) :
    snprintf size text ≠ [] := by
  rw [snprintf, ne_eq, List.take_eq_nil_iff, not_or]
  exact ⟨by omega, some⟩

section Cleanup

variable {qsort : Qsort RotatedFileEntry} {output : FileOutput} {files : Files}

/-- The entries that are cut off. -/
def cutEntries (qsort : Qsort RotatedFileEntry) (output : FileOutput) (files : Files) :
    List RotatedFileEntry :=
  (qsort compareRotatedFiles (rotatedEntries files output.path)).drop output.rotationMaxCount.toNat

/-- The files that they lead to. -/
def cutNames (qsort : Qsort RotatedFileEntry) (output : FileOutput) (files : Files) :
    List FileName :=
  (cutEntries qsort output files).map fun entry => fileAt entry.path

/-- With a limit the array holds the entries in the order of `readdir`. -/
theorem cleanupWith_collected (qsort : Qsort RotatedFileEntry) (files : Files)
    (limit : 0 < output.rotationMaxCount) :
    cleanupWith qsort output files = some
      (if output.rotationMaxCount < (rotatedEntries files output.path).length then
        (cutEntries qsort output files).foldl
          (fun files entry => files.unlink (fileAt entry.path)) files
      else files) := by
  obtain ⟨capacity, collected⟩ := collectNames_eq files (snprintf 1024 (dirname output.path))
    (snprintf 256 (basename output.path))
    (namesIn files (snprintf 1024 (dirname output.path)))
    (show (EntryArray.mk [] 0).files.length ≤ _ from Nat.le_refl 0)
  have named : ¬(snprintf 1024 (dirname output.path) = [] ∨
      snprintf 256 (basename output.path) = []) :=
    not_or.mpr ⟨snprintf_ne_nil (by omega) (dirname_ne_nil _),
      snprintf_ne_nil (by omega) (basename_ne_nil _)⟩
  rw [cleanupWith, if_neg (Int.not_le.mpr limit), if_neg named, collected, List.nil_append,
    ← rotatedEntries_eq, Option.map_some]
  rfl

/-- With a sort that is stable this is the cleanup of the output's rotation. -/
theorem cleanupWith_stableSort (output : FileOutput) (files : Files) :
    cleanupWith stableSort output files = some (cleanupOldRotatedFiles output files) := by
  have sort : stableSort compareRotatedFiles =
      fun entries => entries.mergeSort fun a b => decide (b.mtime ≤ a.mtime) := by
    funext entries
    rw [stableSort]
    congr 1
    funext a b
    rw [decide_eq_decide, compareRotatedFiles_le_iff]
  by_cases limit : 0 < output.rotationMaxCount
  · rw [cleanupWith_collected _ _ limit, cutEntries, sort, cleanupOldRotatedFiles]
    dsimp only
    rw [if_neg (Int.not_le.mpr limit)]
  · rw [cleanupWith, if_pos (Int.not_lt.mp limit), cleanupOldRotatedFiles,
      if_pos (Int.not_lt.mp limit)]

/-- With a limit the files of the entries behind it are removed. -/
theorem cleanupWith_eq (files : Files) (sorts : Sorts qsort)
    (limit : 0 < output.rotationMaxCount) :
    ∃ after, cleanupWith qsort output files = some after ∧
      after.files = files.files.filter (fun file =>
        decide (file.name ∉ cutNames qsort output files)) := by
  rw [cleanupWith_collected qsort files limit]
  refine ⟨_, rfl, ?_⟩
  split
  · rw [← List.foldl_map (f := fun entry : RotatedFileEntry => fileAt entry.path),
      Directory.files_foldl_unlink, cutNames]
  · next few =>
      -- nothing is behind the limit
      have length := (sorts compareRotatedFiles compareRotatedFiles_consistent
        (rotatedEntries files output.path)).1.length_eq
      have none : cutEntries qsort output files = [] := by
        rw [cutEntries, List.drop_eq_nil_iff]
        omega
      simp [cutNames, none]

/-- A file that is gone was cut off. -/
theorem mem_cutNames_of_removed {after : Files}
    (left : after.files = files.files.filter (fun file =>
      decide (file.name ∉ cutNames qsort output files)))
    {removed : StoredFile FileName UInt8} (member : removed ∈ files.files)
    (gone : removed ∉ after.files) : removed.name ∈ cutNames qsort output files := by
  by_contra front
  rw [left, List.mem_filter] at gone
  exact gone ⟨member, decide_eq_true front⟩

end Cleanup

/-! ## The newest are kept -/

/-- The output recognises a file in its directory as a rotated one. -/
def isRotated (path : List Char) (file : StoredFile FileName UInt8) : Bool :=
  file.name.dir = dirname path && looksRotated (basename path) file.name.base

/-- The names of the files hold no slash, and the paths that are put together fit their buffers. -/
structure WithinBuffers (path : List Char) (files : Files) : Prop where
  dir : (dirname path).length < 1024
  base : (basename path).length < 256
  plain : ∀ file ∈ files.files, '/' ∉ file.name.base
  paths : ∀ file ∈ files.files, isRotated path file = true →
    (dirname path ++ '/' :: file.name.base).length < 1024

/-- The entry of a file in the directory of the output. -/
def entryOf (path : List Char) (file : StoredFile FileName UInt8) : RotatedFileEntry :=
  ⟨dirname path ++ '/' :: file.name.base, file.mtime⟩

theorem snprintf_of_lt {size : Nat} {text : List Char} (fits : text.length < size) :
    snprintf size text = text := by
  rw [snprintf, List.take_of_length_le]
  omega

section Within

variable {path : List Char} {files : Files} (within : WithinBuffers path files)

include within

theorem WithinBuffers.fileAt_entryOf {file : StoredFile FileName UInt8}
    (member : file ∈ files.files) (rotated : isRotated path file = true) :
    fileAt (entryOf path file).path = file.name := by
  rw [isRotated, Bool.and_eq_true, decide_eq_true_eq] at rotated
  obtain ⟨inDir, looks⟩ := rotated
  have nonempty : file.name.base ≠ [] := by
    intro none
    rw [none, looksRotated] at looks
    simp at looks
  rw [entryOf, fileAt_dirname path nonempty (within.plain file member), ← inDir]

/-- The entries are those of the files that are recognised. -/
theorem WithinBuffers.rotatedEntries_eq :
    rotatedEntries files path = (files.files.filter (isRotated path)).map (entryOf path) := by
  rw [Nblex.rotatedEntries_eq, snprintf_of_lt within.dir, snprintf_of_lt within.base, namesIn,
    List.filter_map, List.filterMap_map, List.filter_filter, ← List.filterMap_eq_map]
  have same : files.files.filter (fun file =>
      (looksRotated (basename path) ∘
        fun file : StoredFile FileName UInt8 => file.name.base) file &&
        decide (file.name.dir = dirname path)) = files.files.filter (isRotated path) :=
    List.filter_congr fun file _ => Bool.and_comm _ _
  rw [same]
  apply List.filterMap_congr
  intro file member
  obtain ⟨inside, rotated⟩ := List.mem_filter.mp member
  have path_eq := snprintf_of_lt (within.paths file inside rotated)
  have named := within.fileAt_entryOf inside rotated
  rw [Function.comp_apply, rotatedEntry, path_eq]
  rw [entryOf] at named
  dsimp only at named ⊢
  rw [named, Directory.find?_iff.mpr ⟨inside, rfl⟩]
  rfl

/-- The entries lead to the files that are recognised. -/
theorem WithinBuffers.map_fileAt :
    (rotatedEntries files path).map (fun entry => fileAt entry.path) =
      (files.files.filter (isRotated path)).map StoredFile.name := by
  rw [within.rotatedEntries_eq, List.map_map]
  apply List.map_congr_left
  intro file member
  obtain ⟨inside, rotated⟩ := List.mem_filter.mp member
  exact within.fileAt_entryOf inside rotated

end Within

section Kept

variable {qsort : Qsort RotatedFileEntry} (sorts : Sorts qsort) {output : FileOutput}
  {files : Files}

include sorts

/-- What is cut off are entries. -/
theorem cutEntries_subset {entry : RotatedFileEntry} (cut : entry ∈ cutEntries qsort output files) :
    entry ∈ rotatedEntries files output.path :=
  (sorts compareRotatedFiles compareRotatedFiles_consistent _).1.mem_iff.mp
    (List.mem_of_mem_drop cut)

variable (within : WithinBuffers output.path files)

include within

/-- So many of the files that are recognised are cut off. -/
theorem countP_cutEntries :
    (files.files.filter (isRotated output.path)).countP (fun file =>
      decide (file.name ∈ cutNames qsort output files)) =
        (files.files.filter (isRotated output.path)).length - output.rotationMaxCount.toNat := by
  have perm := (sorts compareRotatedFiles compareRotatedFiles_consistent
    (rotatedEntries files output.path)).1.map fun entry => fileAt entry.path
  rw [within.map_fileAt] at perm
  have distinct : ((files.files.filter (isRotated output.path)).map StoredFile.name).Nodup :=
    (List.filter_sublist.map _).nodup files.distinct
  have counted := countP_mem_drop (perm.nodup_iff.mpr distinct) output.rotationMaxCount.toNat
  rw [perm.countP_eq, List.countP_map, perm.length_eq, List.length_map, ← List.map_drop] at counted
  exact counted

/-- A file that is cut off is recognised, and no newer than one that is left. -/
theorem mtime_le_of_cut {removed : StoredFile FileName UInt8} (member : removed ∈ files.files)
    (cut : removed.name ∈ cutNames qsort output files) :
    isRotated output.path removed = true ∧
      ∀ kept ∈ files.files, isRotated output.path kept = true →
        kept.name ∉ cutNames qsort output files → removed.mtime ≤ kept.mtime := by
  obtain ⟨entry, behind, named⟩ := List.mem_map.mp cut
  have inside := cutEntries_subset sorts behind
  rw [within.rotatedEntries_eq] at inside
  obtain ⟨file, rotatedFile, rfl⟩ := List.mem_map.mp inside
  obtain ⟨stored, rotated⟩ := List.mem_filter.mp rotatedFile
  rw [within.fileAt_entryOf stored rotated] at named
  obtain rfl := List.inj_on_of_nodup_map files.distinct stored member named
  refine ⟨rotated, fun kept here keptRotated front => ?_⟩
  have keptEntry : entryOf output.path kept ∈ rotatedEntries files output.path := by
    rw [within.rotatedEntries_eq]
    exact List.mem_map_of_mem (List.mem_filter.mpr ⟨here, keptRotated⟩)
  have keptFront : entryOf output.path kept ∉ cutEntries qsort output files := by
    intro isCut
    refine front (List.mem_map.mpr ⟨_, isCut, ?_⟩)
    exact within.fileAt_entryOf here keptRotated
  have ordered := sorts.le_of_mem_drop compareRotatedFiles_consistent behind keptEntry keptFront
  exact (compareRotatedFiles_le_iff _ _).mp ordered

end Kept

/-- As many of the recognised files are left as the limit allows, none of them older than one that
    is removed; everything else is left, and nothing is added. -/
theorem cleanupWith_newest
    {qsort : Qsort RotatedFileEntry} (sorts : Sorts qsort) {output : FileOutput} {files : Files}
    (limit : 0 < output.rotationMaxCount) (within : WithinBuffers output.path files) :
    ∃ after, cleanupWith qsort output files = some after ∧
      (after.files.filter (isRotated output.path)).length =
        min (files.files.filter (isRotated output.path)).length output.rotationMaxCount.toNat ∧
      (∀ removed ∈ files.files, removed ∉ after.files →
        isRotated output.path removed = true ∧
          ∀ kept ∈ after.files, isRotated output.path kept = true → removed.mtime ≤ kept.mtime) ∧
      after.files.Sublist files.files := by
  obtain ⟨after, done, left⟩ := cleanupWith_eq files sorts limit
  refine ⟨after, done, ?_, fun removed member gone => ?_, left ▸ List.filter_sublist⟩
  · have counted := countP_cutEntries sorts within
    have split := List.length_eq_countP_add_countP (l := files.files.filter (isRotated output.path))
      (fun file => decide (file.name ∈ cutNames qsort output files))
    have rest : (after.files.filter (isRotated output.path)).length =
        (files.files.filter (isRotated output.path)).countP (fun file =>
          decide ¬decide (file.name ∈ cutNames qsort output files) = true) := by
      rw [left, List.filter_comm, List.countP_eq_length_filter]
      simp
    omega
  · have cut := mem_cutNames_of_removed left member gone
    obtain ⟨rotated, newer⟩ := mtime_le_of_cut sorts within member cut
    refine ⟨rotated, fun kept here keptRotated => ?_⟩
    rw [left, List.mem_filter, decide_eq_true_eq] at here
    exact newer kept here.1 keptRotated here.2

/-- Files beside the output `out.log`. -/
def besideOutLog (files : List (List Char × Int)) (distinct : (files.map Prod.fst).Nodup) :
    Files where
  files := files.map fun (base, mtime) => ⟨⟨".".toList, base⟩, mtime, []⟩
  distinct := by
    rw [List.map_map]
    have names : StoredFile.name ∘ (fun (base, mtime) =>
        (⟨⟨".".toList, base⟩, mtime, []⟩ : StoredFile FileName UInt8)) =
          FileName.mk ".".toList ∘ Prod.fst := rfl
    rw [names, ← List.map_map]
    exact distinct.map fun a b same => (FileName.mk.inj same).2

/-- The output `out.log` with room for one rotated file. -/
def outLogOnce : FileOutput := ⟨"out.log".toList, "json", 100, 7, 1, 0, 0⟩

/-- Two files that have been rotated. -/
def rotatedTwice : Files :=
  besideOutLog [("out.log.20240101_000000".toList, 1), ("out.log.20240102_000000".toList, 2)]
    (by decide)

theorem cleanupWith_newest_outLog :
    ∃ after, cleanupWith stableSort outLogOnce rotatedTwice = some after ∧
      (after.files.filter (isRotated outLogOnce.path)).length = 1 ∧
      (∀ removed ∈ rotatedTwice.files, removed ∉ after.files →
        isRotated outLogOnce.path removed = true ∧
          ∀ kept ∈ after.files, isRotated outLogOnce.path kept = true →
            removed.mtime ≤ kept.mtime) ∧
      after.files.Sublist rotatedTwice.files :=
  cleanupWith_newest stableSort_sorts (by decide)
    ⟨by decide, by decide, by decide, by decide⟩

/-! ## What the output can have renamed -/

/-- A file that the output can have renamed: its name is the base name, a dot and a timestamp. -/
def IsRotation (path : List Char) (name : FileName) : Prop :=
  ∃ date time : List Char, date.length = 8 ∧ time.length = 6 ∧
    (∀ c ∈ date ++ time, c.isDigit = true) ∧
    name = ⟨dirname path, basename path ++ '.' :: (date ++ '_' :: time)⟩

/-- The files that are found for the names that look rotated. Paths that are too long for their
    buffer are cut off and may lead to another file. -/
def recognisedFiles (files : Files) (path : List Char) : List (StoredFile FileName UInt8) :=
  let dir := snprintf 1024 (dirname path)
  let base := snprintf 256 (basename path)
  ((namesIn files dir).filter (looksRotated base)).filterMap (fun name =>
    files.find? (fileAt (snprintf 1024 (dir ++ '/' :: name))))

theorem recognisedFiles_mtimes (files : Files) (path : List Char) :
    (rotatedEntries files path).map RotatedFileEntry.mtime =
      (recognisedFiles files path).map StoredFile.mtime := by
  rw [rotatedEntries_eq, recognisedFiles, List.map_filterMap, List.map_filterMap]
  apply List.filterMap_congr
  intro name _
  rw [rotatedEntry, Option.map_map]
  rfl

/-- A recognised file has an entry that leads to it. -/
theorem mem_recognisedFiles {files : Files} {path : List Char}
    {file : StoredFile FileName UInt8} (member : file ∈ recognisedFiles files path) :
    file ∈ files.files ∧ ∃ entry ∈ rotatedEntries files path,
      fileAt entry.path = file.name ∧ entry.mtime = file.mtime := by
  obtain ⟨name, looks, found⟩ := List.mem_filterMap.mp member
  obtain ⟨inside, named⟩ := Directory.find?_iff.mp found
  refine ⟨inside, ⟨_, file.mtime⟩, List.mem_filterMap.mpr ⟨name, looks, ?_⟩, named.symm, rfl⟩
  rw [rotatedEntry, found]
  rfl

/-- The file that an entry leads to is recognised. -/
theorem recognised_of_entry {files : Files} {path : List Char} {entry : RotatedFileEntry}
    (member : entry ∈ rotatedEntries files path) :
    ∃ file ∈ recognisedFiles files path,
      fileAt entry.path = file.name ∧ entry.mtime = file.mtime := by
  obtain ⟨name, looks, found⟩ := List.mem_filterMap.mp member
  obtain ⟨file, atPath, rfl⟩ := Option.map_eq_some_iff.mp found
  exact ⟨file, List.mem_filterMap.mpr ⟨name, looks, atPath⟩, (Directory.find?_iff.mp atPath).2.symm,
    rfl⟩

/-- So many entries are no older than a file. -/
theorem countP_entries (files : Files) (path : List Char) (entry : RotatedFileEntry) :
    (rotatedEntries files path).countP (fun other => decide (compareRotatedFiles other entry ≤ 0)) =
      (recognisedFiles files path).countP (fun other => decide (entry.mtime ≤ other.mtime)) := by
  have entries : (rotatedEntries files path).countP
      (fun other => decide (compareRotatedFiles other entry ≤ 0)) =
        ((rotatedEntries files path).map RotatedFileEntry.mtime).countP
          (fun mtime => decide (entry.mtime ≤ mtime)) := by
    rw [List.countP_map]
    apply List.countP_congr
    intro other _
    rw [decide_eq_true_eq, compareRotatedFiles_le_iff, Function.comp_apply, decide_eq_true_eq]
  rw [entries, recognisedFiles_mtimes, List.countP_map]
  rfl

/-- A recognised file that is not among the newest ones is removed by some `qsort`. -/
theorem exists_removes {output : FileOutput} {files : Files}
    (limit : 0 < output.rotationMaxCount) {file : StoredFile FileName UInt8}
    (recognised : file ∈ recognisedFiles files output.path)
    (many : output.rotationMaxCount.toNat < (recognisedFiles files output.path).countP
      (fun other => decide (file.mtime ≤ other.mtime))) :
    ∃ qsort, Sorts qsort ∧ ∃ after, cleanupWith qsort output files = some after ∧
      file ∉ after.files := by
  obtain ⟨-, entry, isEntry, leads, sameTime⟩ := mem_recognisedFiles recognised
  rw [← sameTime, ← countP_entries] at many
  obtain ⟨qsort, sorts, cut⟩ := exists_sorts_mem_drop compareRotatedFiles_consistent isEntry many
  obtain ⟨after, done, left⟩ := cleanupWith_eq files sorts limit
  refine ⟨qsort, sorts, after, done, ?_⟩
  rw [left, List.mem_filter, decide_eq_true_eq]
  exact fun kept => kept.2 (List.mem_map.mpr ⟨entry, cut, leads⟩)

/-- Only files are removed that the output can have renamed, however `qsort` leaves those of the
    same age, just in case every recognised file that it cannot have renamed is among the newest
    ones. -/
theorem removes_rotations_iff (output : FileOutput) (files : Files) :
    (∀ qsort, Sorts qsort → ∀ after, cleanupWith qsort output files = some after →
      ∀ file ∈ files.files, file ∉ after.files → IsRotation output.path file.name) ↔
    (0 < output.rotationMaxCount →
      ∀ file ∈ recognisedFiles files output.path, ¬IsRotation output.path file.name →
        (recognisedFiles files output.path).countP (fun other =>
          decide (file.mtime ≤ other.mtime)) ≤ output.rotationMaxCount.toNat) := by
  constructor
  · intro own limit file recognised foreign
    by_contra many
    obtain ⟨qsort, sorts, after, done, gone⟩ :=
      exists_removes limit recognised (Nat.not_le.mp many)
    have inside := (mem_recognisedFiles recognised).1
    exact foreign (own qsort sorts after done file inside gone)
  · intro newest qsort sorts after done file inside gone
    by_cases limit : 0 < output.rotationMaxCount
    · obtain ⟨after', done', left⟩ := cleanupWith_eq files sorts limit
      obtain rfl := Option.some.inj (done.symm.trans done')
      have cut := mem_cutNames_of_removed left inside gone
      obtain ⟨entry, behind, leads⟩ := List.mem_map.mp cut
      obtain ⟨other, recognised, found, sameTime⟩ :=
        recognised_of_entry (cutEntries_subset sorts behind)
      obtain rfl := List.inj_on_of_nodup_map files.distinct (mem_recognisedFiles recognised).1
        inside (found.symm.trans leads)
      by_contra foreign
      have few := newest limit other recognised foreign
      have many := sorts.lt_countP_of_mem_drop compareRotatedFiles_consistent behind
      rw [countP_entries, sameTime] at many
      exact absurd few (Nat.not_le.mpr many)
    · rw [cleanupWith, if_pos (Int.not_lt.mp limit)] at done
      cases done
      exact absurd inside gone

/-- A file that somebody has written beside the output. -/
def notesFile : StoredFile FileName UInt8 :=
  ⟨⟨".".toList, "out.log.my_notes_for_audit.txt".toList⟩, 1, []⟩

/-- The notes, and a rotated file that is newer. -/
def notesBeside : Files :=
  besideOutLog [("out.log.my_notes_for_audit.txt".toList, 1), ("out.log.20240102_000000".toList, 2)]
    (by decide)

/-- The name of the notes has an underscore where one is looked for. -/
theorem cleanupWith_removes_notes :
    ¬∀ qsort, Sorts qsort → ∀ after, cleanupWith qsort outLogOnce notesBeside = some after →
      ∀ file ∈ notesBeside.files, file ∉ after.files → IsRotation outLogOnce.path file.name := by
  intro own
  have recognised : notesFile ∈ recognisedFiles notesBeside outLogOnce.path := List.Mem.head _
  obtain ⟨qsort, sorts, after, done, gone⟩ := exists_removes (by decide) recognised (by decide)
  obtain ⟨date, time, dateLength, timeLength, -, named⟩ :=
    own qsort sorts after done notesFile (List.Mem.head _) gone
  have lengths := congrArg (fun name : FileName => name.base.length) named
  have notesLength : notesFile.name.base.length = 30 := by decide
  have baseLength : (basename outLogOnce.path).length = 7 := by decide
  simp only [List.length_append, List.length_cons] at lengths
  omega

end Nblex
