import SchemaGraph.Toml.Value

/-!
# Reading a TOML text

A text is a sequence of lines, each with one statement or none: a header, which names the table
that the following assignments add to, or an assignment. A mark of the byte order may stand in
front of it all.
-/

namespace SchemaGraph.Toml

/-- A statement of a text. -/
inductive Statement
  /-- Set a key in the table at hand. -/
  | assignment (key : Key) (value : Toml)
  /-- Go on with a new table. -/
  | header (key : Key)
  /-- Go on with a new table among others of the same name. -/
  | repeatedHeader (key : Key)

namespace Statement

/-- The statement at the front of a line. -/
def read? (text : List Char) : Option (Statement × List Char) :=
  match dropSpaces text with
  | '[' :: '[' :: rest =>
    match key? rest with
    | some (key, ']' :: ']' :: rest) => some (repeatedHeader key, rest)
    | _ => none
  | '[' :: rest =>
    match key? rest with
    | some (key, ']' :: rest) => some (header key, rest)
    | _ => none
  | text => (assignment? value? text).map fun ((key, value), rest) => (assignment key value, rest)

/-- The statements of a text. The bound limits the lines. -/
def readWithin : Nat → List Char → Option (List Statement)
  | _, [] => some []
  | 0, _ => none
  | bound + 1, text =>
    match endLine? text with
    | some rest => readWithin bound rest
    | none =>
      match read? text with
      | none => none
      | some (statement, rest) =>
        match endLine? rest with
        | some rest => (readWithin bound rest).map (statement :: ·)
        | none => none

/-- The statements of a text. -/
def readAll? (text : List Char) : Option (List Statement) :=
  readWithin text.length text

end Statement

/-- What the first statements of a text have built. -/
structure Draft where
  root : Table
  /-- Where the table at hand is. -/
  here : List String

namespace Draft

/-- Carry out a statement. -/
def extend? (draft : Draft) : Statement → Option Draft
  | .assignment key value =>
    (draft.root.within (Table.assign key.name value key.path) draft.here).map fun root =>
      { draft with root }
  | .header key =>
    (draft.root.within (Table.openTable key.name) key.path).map fun root =>
      ⟨root, key.path ++ [key.name]⟩
  | .repeatedHeader key =>
    (draft.root.within (Table.openRepeated key.name) key.path).map fun root =>
      ⟨root, key.path ++ [key.name]⟩

end Draft

/-- Drop the mark of the byte order in front. -/
def dropMark : List Char → List Char
  | '\uFEFF' :: rest => rest
  | text => text

/-- The table that a text spells. -/
def Table.ofText? (text : String) : Option Table :=
  match Statement.readAll? (dropMark text.toList) with
  | some statements => (statements.foldlM Draft.extend? ⟨[], []⟩).map Draft.root
  | none => none

end SchemaGraph.Toml
