import SchemaGraph.Instant

/-!
# What the command line needs from its surroundings

A command reads and writes files, asks for the time and writes to two streams. All of that is
handed to it, so that a command means the same wherever it is carried out.
-/

namespace SchemaGraph.CommandLine

/-- Why a file cannot be read or written. -/
inductive FileError
  | missing
  | isDirectory
  /-- A file stands where the path goes through a directory. -/
  | notDirectory
  /-- The path or a name on it has too many bytes. -/
  | nameTooLong
  /-- The bytes of the file are no text. -/
  | notText
  | other (reason : String)
deriving DecidableEq, Repr

/-- The wording of an error. -/
def FileError.message : FileError → String
  | missing => "No such file or directory (os error 2)"
  | isDirectory => "Is a directory (os error 21)"
  | notDirectory => "Not a directory (os error 20)"
  | nameTooLong => "File name too long (os error 36)"
  | notText => "stream did not contain valid UTF-8"
  | other reason => reason

/-- The surroundings of a command. -/
structure Host (m : Type → Type) where
  /-- There is something at a path. -/
  isTaken : String → m Bool
  /-- The text of the file at a path. -/
  read : String → m (Except FileError String)
  /-- Replace the text of the file at a path, or make the file. -/
  write : String → String → m (Except FileError Unit)
  /-- The present instant. -/
  now : m Instant
  /-- Write to the stream of results. -/
  print : String → m Unit
  /-- Write to the stream of messages. -/
  complain : String → m Unit

end SchemaGraph.CommandLine
