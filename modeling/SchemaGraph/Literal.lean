import SchemaGraph.Binary64.Shortest

/-!
# Literals

The arguments of an option are literals: text in single quotes, taken as it stands; a float,
which has a decimal point; or an integer of 64 bits.
-/

namespace SchemaGraph

/-- A decoded argument of an option. -/
inductive Literal
  | string (value : String)
  | integer (value : Int)
  | float (value : Binary64)
deriving DecidableEq, Repr

namespace Literal

/-- The text between single quotes at both ends. -/
def unquote? : List Char → Option (List Char)
  | '\'' :: rest =>
    if rest.getLast? = some '\'' then some rest.dropLast else none
  | _ => none

/-- Decode the characters of a literal. -/
def ofChars? (text : List Char) : Option Literal :=
  match unquote? text with
  | some inner => some (string (String.ofList inner))
  | none =>
    if text.contains '.' then
      (Decimal.read? text).map fun d => float (Binary64.ofDecimal d)
    else
      match Decimal.readInteger? text with
      | some n => if isInteger64 n then some (integer n) else none
      | none => none

/-- Decode a literal. -/
def ofText? (text : String) : Option Literal :=
  ofChars? text.toList

/-- The text of a string literal. -/
def asString? : Literal → Option String
  | string value => some value
  | _ => none

/-- The literal is a float. -/
def isFloat : Literal → Bool
  | float _ => true
  | _ => false

/-- A literal as it is shown. -/
def render : Literal → String
  | string value => "'" ++ value ++ "'"
  | integer value => String.ofList (renderInteger value)
  | float value => String.ofList value.render

end Literal

end SchemaGraph
