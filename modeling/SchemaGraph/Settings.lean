/-!
# Settings

The settings of a compile: the names of the builtin types and two switches.
-/

namespace SchemaGraph

/-- The settings of a compile. -/
structure Settings where
  /-- Store properties under lowerCamelCase keys. -/
  camelCaseKeys : Bool
  /-- Do not list the registered records. -/
  quiet : Bool
  /-- The names of the primitive types. -/
  primitives : List String
  /-- The name of the blob type. -/
  blob : String
deriving DecidableEq, Repr

namespace Settings

/-- The usual primitive types. -/
def defaultPrimitives : List String :=
  ["bool", "int", "long", "float", "double", "string", "date", "object_id"]

/-- The usual blob type. -/
def defaultBlob : String := "blob"

/-- The settings where nothing is set. -/
def default : Settings :=
  ⟨false, false, defaultPrimitives, defaultBlob⟩

/-- Turn switches on. -/
def switchOn (camelCaseKeys quiet : Bool) (settings : Settings) : Settings :=
  { settings with
    camelCaseKeys := settings.camelCaseKeys || camelCaseKeys
    quiet := settings.quiet || quiet }

end Settings

end SchemaGraph
