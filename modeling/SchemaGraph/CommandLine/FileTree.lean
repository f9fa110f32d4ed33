import SchemaGraph.CommandLine.Host
import SchemaGraph.Text.Runs

/-!
# A tree of files

Files in directories below one root, and the paths that lead to them. A path is followed name by
name: a dot stays where it is, two dots go up, and every place that is gone through has to be a
directory. A file can be made where nothing is, in a directory that is there.
-/

namespace SchemaGraph.CommandLine

/-- The names on the way from the root to a place. -/
abbrev Location := List String

/-- What there is at a place. -/
inductive Entry
  | file (text : String)
  | directory
deriving DecidableEq, Repr

/-- A path, taken apart. Repeated slashes are as good as one. -/
structure FilePath where
  /-- The path starts at the root. -/
  fromRoot : Bool
  names : List String
  /-- The path ends in a slash, so that it can only be that of a directory. -/
  isOpen : Bool
deriving DecidableEq, Repr

namespace FilePath

/-- The most bytes of a path. -/
def longest : Nat := 4095

/-- The most bytes of a name on a path. -/
def longestName : Nat := 255

/-- Take a path apart. -/
def ofText (text : String) : Except FileError FilePath :=
  if text.isEmpty then .error .missing
  else if longest < text.utf8ByteSize then .error .nameTooLong
  else .ok {
    fromRoot := text.toList.head? == some '/'
    names := (Text.runs (· == '/') text.toList).map String.ofList
    isOpen := text.toList.getLast? == some '/' }

end FilePath

/-- Directories below one root, with text files in them. -/
structure FileTree where
  /-- The directory in which a path starts that does not start at the root. -/
  home : Location
  /-- Directories that are there even if no file is in them, as are all those above one. -/
  directories : List Location
  /-- The texts of the files. -/
  files : List (Location × String)
deriving DecidableEq, Repr

namespace FileTree

/-- The file that is always there and always empty: what is written to it is lost. -/
def nullFile : Location := ["dev", "null"]

/-- There is a directory at a place. -/
def isDirectory (tree : FileTree) (place : Location) : Bool :=
  (tree.home :: tree.directories).any (place.isPrefixOf ·) ||
    tree.files.any fun (other, _) => place.isPrefixOf other.dropLast

/-- What there is at a place. -/
def entry? (tree : FileTree) (place : Location) : Option Entry :=
  if place = nullFile then some (.file "")
  else
    match tree.files.lookup place with
    | some text => some (.file text)
    | none => if tree.isDirectory place then some .directory else none

/-- Insist on a directory. -/
def directoryAt (tree : FileTree) (place : Location) : Except FileError Location :=
  match tree.entry? place with
  | some .directory => .ok place
  | some (.file _) => .error .notDirectory
  | none => .error .missing

/-- Go on from a place by one name. -/
def step (tree : FileTree) (place : Location) (name : String) : Except FileError Location := do
  let place ← tree.directoryAt place
  if name = "." then .ok place
  else if name = ".." then .ok place.dropLast
  else if FilePath.longestName < name.utf8ByteSize then .error .nameTooLong
  else .ok (place ++ [name])

/-- The place to which names lead. There may be nothing. -/
def walk (tree : FileTree) (fromRoot : Bool) (names : List String) : Except FileError Location :=
  names.foldlM tree.step (if fromRoot then [] else tree.home)

/-- What there is at the end of a path. -/
def find (tree : FileTree) (path : String) : Except FileError Entry := do
  let path ← FilePath.ofText path
  match tree.entry? (← tree.walk path.fromRoot path.names) with
  | some .directory => .ok .directory
  | some (.file text) => if path.isOpen then .error .notDirectory else .ok (.file text)
  | none => .error .missing

/-- Read the file at the end of a path. -/
def read (tree : FileTree) (path : String) : Except FileError String := do
  match ← tree.find path with
  | .file text => .ok text
  | .directory => .error .isDirectory

/-- Put a text at a place, instead of the text that is there. -/
def put (tree : FileTree) (place : Location) (text : String) : FileTree :=
  if place = nullFile then tree
  else { tree with files := (place, text) :: tree.files.filter (·.1 ≠ place) }

/-- Write the file at the end of a path. A path that ends in a slash is refused whatever there is
at its last name. -/
def write (tree : FileTree) (path text : String) : Except FileError FileTree := do
  let path ← FilePath.ofText path
  if path.isOpen then
    let _ ← tree.directoryAt (← tree.walk path.fromRoot path.names.dropLast)
    .error .isDirectory
  else
    let place ← tree.walk path.fromRoot path.names
    if tree.entry? place = some .directory then .error .isDirectory
    else .ok (tree.put place text)

end FileTree

end SchemaGraph.CommandLine
