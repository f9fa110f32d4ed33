import SchemaGraph.Text.Hexadecimal

/-!
# The style of a quoted string

A string is written in the plainest form that needs no escapes: double quotes, else single
quotes, else tripled double quotes, else tripled single quotes. Only a string that none of them
can hold is written with escapes. A tab needs no escape but gets one between double quotes.
-/

namespace SchemaGraph.Toml.Quoted

/-- The forms of a string. -/
inductive Style
  | basic
  | literal
  | multiLineBasic
  | multiLineLiteral
deriving DecidableEq, Repr

/-- The controls that no form holds unless they are escaped. -/
def isControl (c : Char) : Bool :=
  (c.toNat < 0x20 && c != '\t' && c != '\n') || c.toNat == 0x7F

/-- A character stands three times in a row. -/
def hasTriple (quote : Char) : List Char → Bool
  | a :: b :: c :: rest =>
    (a == quote && b == quote && c == quote) || hasTriple quote (b :: c :: rest)
  | _ => false

/-- The style that a string is written in. -/
def Style.choose (text : List Char) : Style :=
  let control := text.any isControl
  let backslash := text.contains '\\'
  let newLine := text.contains '\n'
  if !control && !backslash && !newLine && !text.contains '"' then basic
  else if !control && !newLine && !text.contains '\'' then literal
  else if !control && !backslash && !hasTriple '"' text then multiLineBasic
  else if !control && !hasTriple '\'' text then multiLineLiteral
  else if newLine then multiLineBasic
  else basic

/-- A character between double quotes. -/
def escape (c : Char) : List Char :=
  if c = '\x08' then ['\\', 'b']
  else if c = '\t' then ['\\', 't']
  else if c = '\n' then ['\\', 'n']
  else if c = '\x0c' then ['\\', 'f']
  else if c = '\r' then ['\\', 'r']
  else if c = '"' then ['\\', '"']
  else if c = '\\' then ['\\', '\\']
  else if isControl c then
    ['\\', 'u', '0', '0', Text.upperHexDigit (c.toNat / 16), Text.upperHexDigit (c.toNat % 16)]
  else [c]

/-- The inside of a string between tripled double quotes, behind so many quotes in a row: line
ends stand as they are, and so do quotes, unless they would be the third in a row. -/
def multiLineInside : Nat → List Char → List Char
  | _, [] => []
  | quotes, c :: rest =>
    if c = '\n' then c :: multiLineInside 0 rest
    else if c = '"' ∧ quotes < 2 then c :: multiLineInside (quotes + 1) rest
    else escape c ++ multiLineInside 0 rest

/-- A line end right behind opening quotes, which is passed over in reading. It is put there
only if the string has line ends of its own. -/
def opening (text : List Char) : List Char :=
  if text.contains '\n' then ['\n'] else []

/-- A string written in a style. -/
def Style.write (text : List Char) : Style → List Char
  | basic => '"' :: (text.flatMap escape ++ ['"'])
  | literal => '\'' :: (text ++ ['\''])
  | multiLineBasic =>
    '"' :: '"' :: '"' :: (opening text ++ multiLineInside 0 text ++ ['"', '"', '"'])
  | multiLineLiteral => '\'' :: '\'' :: '\'' :: (opening text ++ text ++ ['\'', '\'', '\''])

/-- A string in quotes. -/
def write (text : List Char) : List Char :=
  (Style.choose text).write text

end SchemaGraph.Toml.Quoted
