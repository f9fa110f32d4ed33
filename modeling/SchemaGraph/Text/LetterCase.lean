import SchemaGraph.Text.CaseTable

/-!
# Upper and lower case of a character

A character has a full upper-case form and a full lower-case form, which may have more than
one character: the sharp s becomes two letters. Only the first character of a part of a name
is ever changed.
-/

namespace SchemaGraph.Text

/-- Look a code point up among the expansions, then among the ranges. -/
def mapCase (expansions : List (Nat × List Nat)) (ranges : List CaseRange) (c : Char) :
    List Char :=
  match expansions.lookup c.toNat with
  | some codes => codes.map Char.ofNat
  | none =>
    match ranges.find? (·.covers c.toNat) with
    | some range => [Char.ofNat (range.image c.toNat)]
    | none => [c]

/-- The full upper-case form of a character. -/
def upper (c : Char) : List Char :=
  mapCase upperExpansions upperRanges c

/-- The full lower-case form of a character. -/
def lower (c : Char) : List Char :=
  mapCase lowerExpansions lowerRanges c

/-- Put the first character of a text in upper case. -/
def capitalize : List Char → List Char
  | [] => []
  | c :: rest => upper c ++ rest

/-- Put the first character of a text in lower case. -/
def uncapitalize : List Char → List Char
  | [] => []
  | c :: rest => lower c ++ rest

end SchemaGraph.Text
