import SchemaGraph.Binary64

/-!
# TOML values

A TOML text spells a table: a list of named values in the order of their names' first mention.
A table remembers how it came about, because that decides in which ways it may still grow.
-/

namespace SchemaGraph

/-- How a table came about. -/
inductive TableForm
  /-- It is written as one value and is complete. -/
  | closed
  /-- It has a header of its own. -/
  | headed
  /-- It is only mentioned in the header of another table. -/
  | mentioned
  /-- It is only mentioned in the dotted key of a value. -/
  | dotted
deriving DecidableEq, Repr

/-- A TOML value. -/
inductive Toml
  | string (text : String)
  | integer (value : Int)
  /-- A float; the one that is not a number has no value. -/
  | float (value : Option Binary64)
  | boolean (value : Bool)
  /-- A date, a time of day or both, as it is written. -/
  | moment (text : String)
  | array (items : List Toml)
  | table (form : TableForm) (entries : List (String × Toml))
  /-- The tables of a repeated header, the last one set apart. -/
  | tables (earlier : List (List (String × Toml))) (last : List (String × Toml))

namespace Toml

/-- The entries of a table. -/
abbrev Table := List (String × Toml)

/-- A key: the names of the tables to go through, and the name of the entry in the last. -/
structure Key where
  path : List String
  name : String
deriving DecidableEq, Repr

end Toml

end SchemaGraph
