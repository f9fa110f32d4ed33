import SchemaGraph.Toml.Quoted
import SchemaGraph.Toml.Scalar
import SchemaGraph.Toml.Table

/-!
# Reading keys and values of TOML

Arrays may go on over several lines and may end with a comma; a table that is written as a
value stays on its line and may not. There are limits to how deep values may be nested and to
how many names a key may have.
-/

namespace SchemaGraph.Toml

/-- The characters of names that need no quotes. -/
def isBare (c : Char) : Bool :=
  c.isAlphanum || c == '_' || c == '-'

/-- The name at the front of a text. -/
def name? : List Char → Option (List Char × List Char)
  | '"' :: rest => Quoted.basic? rest
  | '\'' :: rest => Quoted.literal? rest
  | text =>
    let name := text.takeWhile isBare
    if name.isEmpty then none else some (name, text.dropWhile isBare)

/-- A key cannot have more names than this. -/
def mostNames : Nat := 79

/-- Values cannot be nested deeper than this. -/
def mostLevels : Nat := 79

/-- The key at the front of a text, and what stands behind it and the blanks around it. The
bound limits the names. -/
def keyWithin : Nat → List Char → Option (Key × List Char)
  | 0, _ => none
  | bound + 1, text =>
    match name? (dropSpaces text) with
    | none => none
    | some (name, rest) =>
      match dropSpaces rest with
      | '.' :: rest =>
        (keyWithin bound rest).map fun (key, rest) =>
          ({ key with path := String.ofList name :: key.path }, rest)
      | rest => some (⟨[], String.ofList name⟩, rest)

/-- The key at the front of a text. -/
def key? (text : List Char) : Option (Key × List Char) :=
  keyWithin mostNames text

/-- The key and the value of an assignment at the front of a text, given how to read values. -/
def assignment? (value? : List Char → Option (Toml × List Char)) (text : List Char) :
    Option ((Key × Toml) × List Char) :=
  match key? text with
  | some (key, '=' :: rest) =>
    (value? (dropSpaces rest)).map fun (value, rest) => ((key, value), rest)
  | _ => none

/-- The items of an array up to its closing bracket, given how to read them. The bound limits
the items. -/
def itemsWithin (value? : List Char → Option (Toml × List Char)) :
    Nat → List Char → Option (List Toml × List Char)
  | 0, _ => none
  | bound + 1, text =>
    match dropFiller text with
    | ']' :: rest => some ([], rest)
    | text =>
      match value? text with
      | none => none
      | some (item, rest) =>
        match dropFiller rest with
        | ',' :: rest =>
          (itemsWithin value? bound rest).map fun (items, rest) => (item :: items, rest)
        | ']' :: rest => some ([item], rest)
        | _ => none

/-- The assignments of a table up to its closing brace, given how to read their values. The
bound limits the assignments. -/
def assignmentsWithin (value? : List Char → Option (Toml × List Char)) :
    Nat → List Char → Option (List (Key × Toml) × List Char)
  | 0, _ => none
  | bound + 1, text =>
    match assignment? value? text with
    | none => none
    | some (assignment, rest) =>
      match dropSpaces rest with
      | ',' :: rest =>
        (assignmentsWithin value? bound rest).map fun (assignments, rest) =>
          (assignment :: assignments, rest)
      | '\x7d' :: rest => some ([assignment], rest)
      | _ => none

/-- The array behind an opening bracket. -/
def array? (value? : List Char → Option (Toml × List Char)) (text : List Char) :
    Option (Toml × List Char) :=
  (itemsWithin value? (text.length + 1) text).map fun (items, rest) => (array items, rest)

/-- The table behind an opening brace. -/
def closedTable? (value? : List Char → Option (Toml × List Char)) (text : List Char) :
    Option (Toml × List Char) :=
  match dropSpaces text with
  | '\x7d' :: rest => some (table .closed [], rest)
  | _ => do
    let (assignments, rest) ← assignmentsWithin value? text.length text
    let entries ← Table.ofAssignments? assignments
    some (table .closed entries, rest)

/-- The string at the front of a text. -/
def string? (text : List Char) : Option (Toml × List Char) :=
  (Quoted.read? text).map fun (inner, rest) => (string (String.ofList inner), rest)

/-- The value at the front of a text, nested no deeper than the given levels. -/
def valueWithin : Nat → List Char → Option (Toml × List Char)
  | level, text =>
    match text with
    | '[' :: rest =>
      match level with
      | 0 => none
      | level + 1 => array? (valueWithin level) rest
    | '\x7b' :: rest =>
      match level with
      | 0 => none
      | level + 1 => closedTable? (valueWithin level) rest
    | '"' :: _ => string? text
    | '\'' :: _ => string? text
    | text => scalar? text

/-- The value at the front of a text. -/
def value? (text : List Char) : Option (Toml × List Char) :=
  valueWithin mostLevels text

end SchemaGraph.Toml
