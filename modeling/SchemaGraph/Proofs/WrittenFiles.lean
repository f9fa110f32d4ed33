import Mathlib.Data.List.Basic
import SchemaGraph.CommandLine.FileTree

/-!
# What is written to a file can be read

A file is made in a directory that is there, and to make it or to replace its text takes no
directory away. So the path under which a file has been written leads to it afterwards, and what
is read there is what has been written. The null file is the exception: it stays empty.
-/

namespace SchemaGraph.CommandLine.FileTree

variable {tree saved : FileTree} {place other : Location} {text : String}

/-- The path leads to a place, whether or not anything is there. -/
def Reaches (tree : FileTree) (path : String) (place : Location) : Prop :=
  ∃ parts, FilePath.ofText path = .ok parts ∧ tree.walk parts.fromRoot parts.names = .ok place

/-- A place is a directory if it is one to start with or a file stands somewhere below it. -/
theorem entry?_eq_directory_iff :
    tree.entry? place = some .directory ↔
      place ≠ nullFile ∧ tree.files.lookup place = none ∧ tree.isDirectory place = true := by
  rw [ entry?]
  by_cases null : place = nullFile
  · simp [null]
  · cases tree.files.lookup place with
    | some found => simp [null]
    | none => simp [null]

/-- A file that is replaced or made takes no directory away. -/
theorem isDirectory_put (directory : tree.isDirectory other = true) :
    (tree.put place text).isDirectory other = true := by
  rw [put]
  split
  · exact directory
  rw [isDirectory, Bool.or_eq_true] at directory ⊢
  refine directory.imp_right fun below => ?_
  obtain ⟨file, listed, above⟩ := List.any_eq_true.mp below
  refine List.any_eq_true.mpr ?_
  -- A file that is replaced stands where it stood.
  by_cases here : file.1 = place
  · exact ⟨(place, text), List.mem_cons_self, here ▸ above⟩
  · exact ⟨file, List.mem_cons_of_mem _ (List.mem_filter.mpr ⟨listed, by simpa using here⟩), above⟩

/-- Other places than that of the file are looked up as before. -/
theorem lookup_put (apart : other ≠ place) :
    (tree.put place text).files.lookup other = tree.files.lookup other := by
  have filtered (files : List (Location × String)) :
      (files.filter (·.1 ≠ place)).lookup other = files.lookup other := by
    induction files with
    | nil => rfl
    | cons file rest ih =>
      obtain ⟨at', written⟩ := file
      by_cases here : at' = place
      · have passed : (other == at') = false := by simpa [here] using apart
        rw [List.filter_cons_of_neg (by simp [here]), ih, List.lookup_cons, passed]
      · rw [List.filter_cons_of_pos (by simp [here]), List.lookup_cons, List.lookup_cons, ih]
  have passed : (other == place) = false := by simpa using apart
  rw [put]
  split
  · rfl
  · simp only [List.lookup_cons, passed, filtered]

/-- A directory stays a directory when a file is written somewhere else. -/
theorem entry?_put_of_directory (apart : other ≠ place)
    (directory : tree.entry? other = some .directory) :
    FileTree.entry? (tree.put place text) other = some .directory := by
  obtain ⟨notNull, noFile, isDirectory⟩ := entry?_eq_directory_iff.mp directory
  exact entry?_eq_directory_iff.mpr
    ⟨notNull, (lookup_put apart).trans noFile, isDirectory_put isDirectory⟩

/-- The file is in its place. -/
theorem entry?_put (apart : place ≠ nullFile) :
    FileTree.entry? (tree.put place text) place = some (.file text) := by
  rw [ entry?, put, if_neg apart, if_neg apart, List.lookup_cons_self]

/-- A directory can be gone through as before, since it is not where the file is written. -/
theorem step_put (notDirectory : tree.entry? place ≠ some .directory) {name : String}
    {next : Location} (steps : tree.step other name = .ok next) :
    (tree.put place text).step other name = .ok next := by
  have isDirectory : tree.entry? other = some .directory := by
    by_contra fails
    cases entry : tree.entry? other with
    | none => simp [step, directoryAt, entry, Bind.bind, Except.bind] at steps
    | some found =>
      cases found with
      | file => simp [step, directoryAt, entry, Bind.bind, Except.bind] at steps
      | directory => exact fails entry
  have apart : other ≠ place := fun same => notDirectory (same ▸ isDirectory)
  have kept : FileTree.entry? (tree.put place text) other = some .directory :=
    entry?_put_of_directory apart isDirectory
  have same : (tree.put place text).step other name = tree.step other name := by
    simp only [step, directoryAt, kept, isDirectory]
  exact same.trans steps

/-- A way that leads through directories leads to the same place as before. -/
theorem walk_put (notDirectory : tree.entry? place ≠ some .directory) (fromRoot : Bool)
    {names : List String} (walks : tree.walk fromRoot names = .ok other) :
    (tree.put place text).walk fromRoot names = .ok other := by
  have home : (tree.put place text).home = tree.home := by
    rw [put]
    split <;> rfl
  rw [walk] at walks ⊢
  rw [home]
  generalize (if fromRoot then [] else tree.home) = start at walks ⊢
  induction names generalizing start with
  | nil => exact walks
  | cons name rest ih =>
    rw [List.foldlM_cons] at walks ⊢
    cases steps : tree.step start name with
    | error error => simp [steps, Bind.bind, Except.bind] at walks
    | ok next =>
      rw [steps] at walks
      rw [step_put notDirectory steps]
      exact ih next walks

/-- A file is written in the place that its path leads to, if no directory is there. -/
theorem write_eq_ok_iff {path : String} :
    tree.write path text = .ok saved ↔
      ∃ parts place, FilePath.ofText path = .ok parts ∧ parts.isOpen = false ∧
        tree.walk parts.fromRoot parts.names = .ok place ∧ tree.entry? place ≠ some .directory ∧
        saved = tree.put place text := by
  rw [write]
  cases FilePath.ofText path with
  | error error => simp [Bind.bind, Except.bind]
  | ok parts =>
    cases isOpen : parts.isOpen with
    | true =>
      simp only [Bind.bind, Except.bind, isOpen, if_true]
      cases tree.walk parts.fromRoot parts.names.dropLast with
      | error error => simp [isOpen]
      | ok place => cases found : tree.directoryAt place <;> simp [isOpen, found]
    | false =>
      cases walks : tree.walk parts.fromRoot parts.names with
      | error error => simp [Bind.bind, Except.bind, isOpen, walks]
      | ok place =>
        by_cases directory : tree.entry? place = some .directory
        · simp [Bind.bind, Except.bind, isOpen, walks, directory]
        · simp only [Bind.bind, Except.bind, isOpen, walks, directory, if_false,
            Bool.false_eq_true, Except.ok.injEq, exists_eq_left', exists_and_left, ne_eq,
            not_false_eq_true, true_and]
          exact eq_comm

/-- What is written is read back. -/
theorem read_of_write {path : String} (writes : tree.write path text = .ok saved)
    (elsewhere : ¬ tree.Reaches path nullFile) : saved.read path = .ok text := by
  obtain ⟨parts, place, split, closed, walks, notDirectory, rfl⟩ := write_eq_ok_iff.mp writes
  have notNull : place ≠ nullFile := fun same => elsewhere ⟨parts, split, same ▸ walks⟩
  have ends : (tree.put place text).walk parts.fromRoot parts.names = .ok place :=
    walk_put notDirectory parts.fromRoot walks
  simp [read, find, split, ends, entry?_put notNull, closed, Bind.bind, Except.bind]

end SchemaGraph.CommandLine.FileTree
