import Mathlib.Data.List.Nodup

/-!
# Directories of files

A directory holds files under distinct names, in the order in which they are listed. Opening a file
for appending creates it, writing appends to it, renaming replaces an existing target, and
unlinking removes a file. What a name holds is its content, and nothing if there is no such file.
-/

namespace Nblex

/-- A file: its name, the time of its last change, and what it holds. -/
structure StoredFile (ν α : Type) where
  name : ν
  mtime : Int
  content : List α

/-- The files of a directory. -/
structure Directory (ν α : Type) where
  files : List (StoredFile ν α)
  distinct : (files.map StoredFile.name).Nodup

namespace Directory

variable {ν α : Type} [DecidableEq ν]

/-- The file of a name. -/
def find? (dir : Directory ν α) (name : ν) : Option (StoredFile ν α) :=
  dir.files.find? (fun file => decide (file.name = name))

/-- What a name holds. -/
def contents (dir : Directory ν α) (name : ν) : List α :=
  ((dir.find? name).map StoredFile.content).getD []

/-- The directory has a file of the name. -/
def Has (dir : Directory ν α) (name : ν) : Prop := name ∈ dir.files.map StoredFile.name

instance (dir : Directory ν α) (name : ν) : Decidable (dir.Has name) :=
  inferInstanceAs (Decidable (name ∈ dir.files.map StoredFile.name))

/-- A directory with a single file. -/
def single (file : StoredFile ν α) : Directory ν α := ⟨[file], List.nodup_singleton _⟩

/-- `fopen(name, "a")`: a file that does not exist is created. -/
def openAppend (dir : Directory ν α) (name : ν) (now : Int) : Directory ν α :=
  if missing : dir.Has name then dir
  else
    { files := dir.files ++ [⟨name, now, []⟩]
      distinct := by
        rw [List.map_append]
        exact List.Nodup.append dir.distinct (List.nodup_singleton _)
          (List.disjoint_singleton.mpr missing) }

/-- Appending to the end of a file. -/
def append (dir : Directory ν α) (name : ν) (now : Int) (added : List α) : Directory ν α where
  files := dir.files.map (fun file =>
    if file.name = name then { file with mtime := now, content := file.content ++ added }
    else file)
  distinct := by
    rw [List.map_map]
    have names : StoredFile.name ∘ (fun file : StoredFile ν α =>
        if file.name = name then { file with mtime := now, content := file.content ++ added }
        else file) = StoredFile.name := by
      funext file
      dsimp only [Function.comp_apply]
      split <;> rfl
    rw [names]
    exact dir.distinct

/-- `unlink`. -/
def unlink (dir : Directory ν α) (name : ν) : Directory ν α where
  files := dir.files.filter (fun file => decide (file.name ≠ name))
  distinct := (List.filter_sublist.map _).nodup dir.distinct

/-- The name of a file after a renaming. -/
def renamed (old new name : ν) : ν := if name = old then new else name

/-- `rename`: a target that exists is replaced, and a file that is missing is not renamed. -/
def rename (dir : Directory ν α) (old new : ν) : Directory ν α :=
  if old = new ∨ ¬dir.Has old then dir
  else
    { files := (dir.unlink new).files.map (fun file =>
        { file with name := renamed old new file.name })
      distinct := by
        rw [List.map_map]
        have names : StoredFile.name ∘ (fun file : StoredFile ν α =>
            { file with name := renamed old new file.name }) =
              renamed old new ∘ StoredFile.name := rfl
        rw [names, ← List.map_map]
        refine List.Nodup.map_on ?_ (dir.unlink new).distinct
        intro a inA b inB same
        have otherA : a ≠ new := by
          obtain ⟨file, member, rfl⟩ := List.mem_map.mp inA
          exact of_decide_eq_true (List.mem_filter.mp member).2
        have otherB : b ≠ new := by
          obtain ⟨file, member, rfl⟩ := List.mem_map.mp inB
          exact of_decide_eq_true (List.mem_filter.mp member).2
        unfold renamed at same
        split at same
        · next isA =>
          split at same
          · next isB => rw [isA, isB]
          · exact absurd same.symm otherB
        · split at same
          · exact absurd same otherA
          · exact same }

/-! ## What the names hold -/

theorem find?_iff {dir : Directory ν α} {name : ν} {file : StoredFile ν α} :
    dir.find? name = some file ↔ file ∈ dir.files ∧ file.name = name := by
  constructor
  · intro found
    exact ⟨List.mem_of_find?_eq_some found, of_decide_eq_true (List.find?_some found :)⟩
  · rintro ⟨member, rfl⟩
    cases found : dir.find? file.name with
    | none => exact absurd (decide_eq_true rfl) (List.find?_eq_none.mp found file member)
    | some other =>
        have named : other.name = file.name := of_decide_eq_true (List.find?_some found :)
        rw [List.inj_on_of_nodup_map dir.distinct (List.mem_of_find?_eq_some found) member named]

theorem find?_eq_none {dir : Directory ν α} {name : ν} :
    dir.find? name = none ↔ ¬dir.Has name := by
  unfold find? Has
  rw [List.find?_eq_none, List.mem_map]
  constructor
  · rintro none ⟨file, member, same⟩
    exact none file member (decide_eq_true same)
  · intro absent file member same
    exact absent ⟨file, member, of_decide_eq_true same⟩

theorem contents_of_file {dir : Directory ν α} {file : StoredFile ν α}
    (member : file ∈ dir.files) : dir.contents file.name = file.content := by
  rw [contents, find?_iff.mpr ⟨member, rfl⟩]
  rfl

theorem contents_of_missing {dir : Directory ν α} {name : ν} (missing : ¬dir.Has name) :
    dir.contents name = [] := by
  rw [contents, find?_eq_none.mpr missing]
  rfl

/-- Two directories that have the same file of a name hold the same under it. -/
theorem contents_congr {dir dir' : Directory ν α} {name : ν}
    (same : ∀ file : StoredFile ν α, file.name = name → (file ∈ dir.files ↔ file ∈ dir'.files)) :
    dir.contents name = dir'.contents name := by
  have found : dir.find? name = dir'.find? name := by
    apply Option.ext
    intro file
    rw [find?_iff, find?_iff]
    exact and_congr_left (fun named => same file named)
  rw [contents, contents, found]

theorem contents_single (file : StoredFile ν α) :
    (single file).contents file.name = file.content :=
  contents_of_file (List.mem_singleton_self file)

theorem contents_single_other (file : StoredFile ν α) {name : ν} (other : name ≠ file.name) :
    (single file).contents name = [] := by
  apply contents_of_missing
  intro has
  exact other (List.mem_singleton.mp has)

theorem openAppend_has (dir : Directory ν α) (name : ν) (now : Int) :
    (dir.openAppend name now).Has name := by
  unfold openAppend
  split
  · next has => exact has
  · unfold Has
    rw [List.map_append]
    exact List.mem_append_right _ (List.mem_singleton_self _)

theorem openAppend_files {dir : Directory ν α} {name : ν} (missing : ¬dir.Has name) (now : Int) :
    (dir.openAppend name now).files = dir.files ++ [⟨name, now, []⟩] := by
  rw [openAppend, dif_neg missing]

/-- Opening a file changes no content. -/
@[simp] theorem contents_openAppend (dir : Directory ν α) (name other : ν) (now : Int) :
    (dir.openAppend name now).contents other = dir.contents other := by
  by_cases has : dir.Has name
  · rw [openAppend, dif_pos has]
  · have files := openAppend_files has now
    by_cases same : other = name
    · have created : (⟨name, now, []⟩ : StoredFile ν α) ∈ (dir.openAppend name now).files := by
        rw [files]
        exact List.mem_append_right _ (List.mem_singleton_self _)
      rw [same, contents_of_missing has]
      exact contents_of_file created
    · apply contents_congr
      intro file named
      rw [files, List.mem_append, List.mem_singleton]
      refine or_iff_left ?_
      rintro rfl
      exact same named.symm

theorem append_has {dir : Directory ν α} {name other : ν} (has : dir.Has other) (now : Int)
    (added : List α) : (dir.append name now added).Has other := by
  obtain ⟨file, member, rfl⟩ := List.mem_map.mp has
  refine List.mem_map.mpr ⟨_, List.mem_map_of_mem member, ?_⟩
  split <;> rfl

@[simp] theorem contents_append {dir : Directory ν α} {name : ν} (has : dir.Has name) (now : Int)
    (added : List α) :
    (dir.append name now added).contents name = dir.contents name ++ added := by
  obtain ⟨file, member, rfl⟩ := List.mem_map.mp has
  rw [contents_of_file member]
  have grown : ({ file with mtime := now, content := file.content ++ added } : StoredFile ν α) ∈
      (dir.append file.name now added).files := by
    refine List.mem_map.mpr ⟨file, member, ?_⟩
    rw [if_pos rfl]
  exact contents_of_file grown

theorem contents_append_other (dir : Directory ν α) {name other : ν} (different : other ≠ name)
    (now : Int) (added : List α) :
    (dir.append name now added).contents other = dir.contents other := by
  apply contents_congr
  intro file named
  have stays : file.name ≠ name := by
    rw [named]
    exact different
  constructor
  · intro inside
    obtain ⟨old, member, same⟩ := List.mem_map.mp inside
    by_cases changed : old.name = name
    · rw [if_pos changed] at same
      rw [← same] at stays
      exact absurd changed stays
    · rw [if_neg changed] at same
      rw [← same]
      exact member
  · intro member
    exact List.mem_map.mpr ⟨file, member, if_neg stays⟩

section Rename

variable {dir : Directory ν α} {old new : ν}

theorem rename_self (dir : Directory ν α) (name : ν) : dir.rename name name = dir :=
  if_pos (Or.inl rfl)

/-- The files after a renaming that takes place. -/
theorem rename_files (different : old ≠ new) (has : dir.Has old) :
    (dir.rename old new).files = (dir.unlink new).files.map (fun file =>
      { file with name := renamed old new file.name }) := by
  have moves : ¬(old = new ∨ ¬dir.Has old) := by
    rintro (same | missing)
    · exact different same
    · exact missing has
  rw [rename, if_neg moves]

theorem mem_unlink {name : ν} {file : StoredFile ν α} :
    file ∈ (dir.unlink name).files ↔ file ∈ dir.files ∧ file.name ≠ name := by
  rw [unlink, List.mem_filter, decide_eq_true_eq]

/-- What is left when the files of some names are removed. -/
theorem files_foldl_unlink (dir : Directory ν α) (names : List ν) :
    (names.foldl unlink dir).files =
      dir.files.filter (fun file => decide (file.name ∉ names)) := by
  induction names generalizing dir with
  | nil => simp
  | cons name names ih =>
      rw [List.foldl_cons, ih, unlink, List.filter_filter]
      apply List.filter_congr
      intro file _
      rw [← Bool.decide_and, decide_eq_decide, List.mem_cons, not_or]
      exact and_comm

/-- The target holds what the file has held. -/
theorem contents_rename_new (different : old ≠ new) (has : dir.Has old) :
    (dir.rename old new).contents new = dir.contents old := by
  obtain ⟨file, member, rfl⟩ := List.mem_map.mp has
  rw [contents_of_file member]
  have moved : ({ file with name := new } : StoredFile ν α) ∈
      (dir.rename file.name new).files := by
    rw [rename_files different has]
    refine List.mem_map.mpr ⟨file, mem_unlink.mpr ⟨member, different⟩, ?_⟩
    rw [renamed, if_pos rfl]
  exact contents_of_file moved

/-- The old name holds nothing. -/
theorem contents_rename_old (different : old ≠ new) (has : dir.Has old) :
    (dir.rename old new).contents old = [] := by
  apply contents_of_missing
  unfold Has
  rw [rename_files different has, List.map_map, List.mem_map]
  rintro ⟨file, member, same⟩
  have kept := (mem_unlink.mp member).2
  change renamed old new file.name = old at same
  unfold renamed at same
  split at same
  · exact different same.symm
  · next other => exact other same

/-- Other names hold what they held. -/
theorem contents_rename_other {name : ν} (notOld : name ≠ old) (notNew : name ≠ new) :
    (dir.rename old new).contents name = dir.contents name := by
  by_cases moves : old = new ∨ ¬dir.Has old
  · rw [rename, if_pos moves]
  · rw [not_or, not_not] at moves
    apply contents_congr
    rintro file rfl
    rw [rename_files moves.1 moves.2, List.mem_map]
    constructor
    · rintro ⟨before, member, same⟩
      have named : renamed old new before.name = file.name := congrArg StoredFile.name same
      unfold renamed at named
      split at named
      · exact absurd named.symm notNew
      · next other =>
        rw [← same]
        unfold renamed
        rw [if_neg other]
        exact (mem_unlink.mp member).1
    · intro member
      refine ⟨file, mem_unlink.mpr ⟨member, notNew⟩, ?_⟩
      unfold renamed
      rw [if_neg notOld]

end Rename

end Directory

end Nblex
