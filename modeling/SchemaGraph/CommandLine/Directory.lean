import SchemaGraph.CommandLine.FileTree

/-!
# A directory in memory

Surroundings in which a command can be tried out: a directory with text files, in which the
time stands still at the start of 1970. Outside of it there is nothing but the directories that
every system has, and the null file.
-/

namespace SchemaGraph.CommandLine

/-- The state of the files and what has been written to the two streams. -/
structure Directory where
  tree : FileTree
  printed : String
  complained : String
deriving DecidableEq, Repr

namespace Directory

/-- The place of the directory. -/
def home : Location := ["tmp", "schemas"]

/-- The directories right below the root of a system. -/
def systemDirectories : List Location :=
  ["bin", "boot", "dev", "etc", "home", "lib", "media", "mnt", "opt", "proc", "root", "run",
    "sbin", "srv", "sys", "tmp", "usr", "var"].map fun name => [name]

/-- A directory with these files, given under the paths that lead to them. -/
def ofFiles (files : List (String × String)) : Directory where
  tree := {
    home := home
    directories := systemDirectories
    files := files.map fun (path, text) =>
      (home ++ (Text.runs (· == '/') path.toList).map String.ofList, text) }
  printed := ""
  complained := ""

/-- The files in the directory, under the paths that lead to them. -/
def files (directory : Directory) : List (String × String) :=
  (directory.tree.files.filter (home.isPrefixOf ·.1)).map fun (place, text) =>
    ("/".intercalate (place.drop home.length), text)

/-- The directory as surroundings of a command. -/
def host : Host (StateM Directory) where
  isTaken path := do return ((← get).tree.find path).isOk
  read path := do return (← get).tree.read path
  write path text := do
    let directory ← get
    match directory.tree.write path text with
    | .ok tree =>
      set { directory with tree := tree }
      return .ok ()
    | .error error => return .error error
  now := return Instant.epoch
  print text := modify fun directory => { directory with printed := directory.printed ++ text }
  complain text :=
    modify fun directory => { directory with complained := directory.complained ++ text }

end Directory

end SchemaGraph.CommandLine
