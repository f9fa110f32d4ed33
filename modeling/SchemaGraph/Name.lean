import SchemaGraph.Text.LetterCase
import SchemaGraph.Text.Runs

/-!
# Names

A declaration is known by its qualified name, the dotted path from the outermost record to the
declaration itself. Other names are generated from it or from a property's name: the local
name, the display name of a listing and the storage key of a property.
-/

namespace SchemaGraph.Name

open SchemaGraph.Text

/-- The qualified name of what is declared under a local name inside a scope. -/
def within (scope localName : String) : String :=
  scope ++ "." ++ localName

/-- The part of a qualified name behind its last dot. -/
def localPart (qualified : String) : String :=
  String.ofList (qualified.toList.reverse.takeWhile (· != '.')).reverse

/-- The parts of a qualified name between dots and underscores, each capitalised, put together. -/
def display (qualified : String) : String :=
  String.ofList ((runs (fun c => c == '.' || c == '_') qualified.toList).flatMap capitalize)

/-- Join the parts of a name, all but the first capitalised and the first uncapitalised. -/
def camelCase : List (List Char) → List Char
  | [] => []
  | first :: others => uncapitalize first ++ others.flatMap capitalize

/-- The lowerCamelCase form of a name whose parts are separated by underscores. -/
def lowerCamel (name : String) : String :=
  String.ofList (camelCase (runs (· == '_') name.toList))

end SchemaGraph.Name
