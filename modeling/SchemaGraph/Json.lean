import SchemaGraph.Text.Hexadecimal

/-!
# JSON values and their text

Trees and reports are exchanged as JSON. A value keeps the order of its fields. The only
numbers that anything here reads or writes are natural numbers; any other number keeps the
characters it was written in. Text is written either compactly or with one field or item on a
line, indented by two blanks.
-/

namespace SchemaGraph

/-- A JSON value. -/
inductive Json
  | null
  | boolean (value : Bool)
  | natural (value : Nat)
  /-- A number with a sign, a fraction or an exponent, as it is written. -/
  | numeral (text : String)
  | string (text : String)
  | array (items : List Json)
  | object (fields : List (String × Json))
  /-- A string, or an object with a key, whose escapes spell no Unicode text. It can be passed
  over, but nothing can be read from it. -/
  | illFormed
deriving Repr

namespace Json

/-- A character within quotes: quotes, backslashes and the controls below U+0020 are escaped. -/
def escape (c : Char) : List Char :=
  if c = '"' then ['\\', '"']
  else if c = '\\' then ['\\', '\\']
  else if c = '\n' then ['\\', 'n']
  else if c = '\r' then ['\\', 'r']
  else if c = '\t' then ['\\', 't']
  else if c = '\x08' then ['\\', 'b']
  else if c = '\x0c' then ['\\', 'f']
  else if c.toNat < 0x20 then
    ['\\', 'u', '0', '0', Text.hexDigit (c.toNat / 16),
      Text.hexDigit (c.toNat % 16)]
  else [c]

/-- A string in quotes. -/
def quoted (text : String) : List Char :=
  '"' :: (text.toList.flatMap escape ++ ['"'])

/-- The characters of a value that is neither an array nor an object. -/
def scalarChars : Json → List Char
  | boolean true => "true".toList
  | boolean false => "false".toList
  | natural value => Nat.toDigits 10 value
  | numeral text => text.toList
  | string text => quoted text
  | _ => "null".toList

mutual
/-- A value without any blanks. -/
def compactChars : Json → List Char
  | array items => '[' :: (compactItems items ++ [']'])
  | object fields => '\x7b' :: (compactFields fields ++ ['\x7d'])
  | scalar => scalar.scalarChars
/-- Items separated by commas. -/
def compactItems : List Json → List Char
  | [] => []
  | [item] => compactChars item
  | item :: rest => compactChars item ++ ',' :: compactItems rest
/-- Fields separated by commas. -/
def compactFields : List (String × Json) → List Char
  | [] => []
  | [(key, value)] => quoted key ++ ':' :: compactChars value
  | (key, value) :: rest => quoted key ++ ':' :: (compactChars value ++ ',' :: compactFields rest)
end

/-- The start of a line at a depth. -/
def newLine (depth : Nat) : List Char :=
  '\n' :: List.replicate (2 * depth) ' '

mutual
/-- A value that starts at a depth, with one field or item on a line. -/
def prettyChars (depth : Nat) : Json → List Char
  | array [] => ['[', ']']
  | array items =>
    '[' :: (newLine (depth + 1) ++ prettyItems (depth + 1) items ++ newLine depth ++ [']'])
  | object [] => ['\x7b', '\x7d']
  | object fields =>
    '\x7b' ::
      (newLine (depth + 1) ++ prettyFields (depth + 1) fields ++ newLine depth ++ ['\x7d'])
  | scalar => scalar.scalarChars
/-- Items on lines of their own. -/
def prettyItems (depth : Nat) : List Json → List Char
  | [] => []
  | [item] => prettyChars depth item
  | item :: rest => prettyChars depth item ++ ',' :: (newLine depth ++ prettyItems depth rest)
/-- Fields on lines of their own. -/
def prettyFields (depth : Nat) : List (String × Json) → List Char
  | [] => []
  | [(key, value)] => quoted key ++ ':' :: ' ' :: prettyChars depth value
  | (key, value) :: rest =>
    quoted key ++ ':' :: ' ' ::
      (prettyChars depth value ++ ',' :: (newLine depth ++ prettyFields depth rest))
end

/-- The text of a value without any blanks. -/
def compact (json : Json) : String :=
  String.ofList json.compactChars

/-- The text of a value with one field or item on a line. -/
def pretty (json : Json) : String :=
  String.ofList (json.prettyChars 0)

end Json

end SchemaGraph
