import SchemaGraph.CommandLine.Run
import Std.Time.DateTime.Timestamp

/-!
# The program

The command line with the files, the clock and the streams of the system.
-/

namespace SchemaGraph.CommandLine

/-- The number of an error of the system, which some operations report below zero. -/
def errorNumber (code : UInt32) : Nat :=
  min code.toNat (-code).toNat

/-- The error of the system as an error of a file. -/
def FileError.ofSystem : IO.Error → FileError
  | .noFileOrDirectory .. => .missing
  | .inappropriateType _ code _ => if errorNumber code = 20 then .notDirectory else .isDirectory
  | .permissionDenied .. => .other "Permission denied (os error 13)"
  | error@(.invalidArgument _ code _) =>
    if errorNumber code = 36 then .nameTooLong else .other (toString error)
  | error => .other (toString error)

/-- The present instant by the clock of the system. -/
def systemInstant : IO Instant := do
  let nanoseconds := (← Std.Time.Timestamp.now).toNanosecondsSinceUnixEpoch.val
  return (Instant.ofParts? (nanoseconds / 1000000000) (nanoseconds % 1000000000).toNat).getD
    Instant.epoch

/-- The system as surroundings of a command. -/
def system : Host IO where
  isTaken path := do
    try
      let _ ← IO.FS.Handle.mk path .read
      return true
    catch
    | .permissionDenied .. => return true
    | _ => return false
  read path := do
    try
      match String.fromUTF8? (← IO.FS.readBinFile path) with
      | some text => return .ok text
      | none => return .error .notText
    catch error => return .error (.ofSystem error)
  write path text := do
    try
      IO.FS.writeFile path text
      return .ok ()
    catch error => return .error (.ofSystem error)
  now := systemInstant
  print text := do (← IO.getStdout).putStr text
  complain text := do (← IO.getStderr).putStr text

end SchemaGraph.CommandLine

/-- Carry out what the arguments ask for. -/
def main (arguments : List String) : IO UInt32 :=
  SchemaGraph.CommandLine.run SchemaGraph.CommandLine.system arguments
