import SchemaGraph.Text.Hexadecimal
import SchemaGraph.Toml.Layout

/-!
# Quoted strings of TOML

A string has one of four forms. Between double quotes a backslash begins an escape; between
single quotes every character stands for itself. Either quote may be tripled, and then the
string may go on over several lines: a line end right behind the opening quotes is passed over,
and up to two quotes may stand next to each other anywhere, even right before the closing
quotes. This module reads all of them.
-/

namespace SchemaGraph.Toml.Quoted

/-- Put a piece in front of what is read behind it. -/
def prepend (piece : List Char) :
    Option (List Char × List Char) → Option (List Char × List Char)
  | some (inner, rest) => some (piece ++ inner, rest)
  | none => none

/-- The character whose number is given in so many hexadecimal digits. -/
def numbered? (width : Nat) (text : List Char) : Option (Char × List Char) :=
  if text.length < width then none
  else
    match Text.hexNatural? (text.take width) with
    | some n => if n.isValidChar then some (Char.ofNat n, text.drop width) else none
    | none => none

/-- The character that an escape stands for, behind its backslash. -/
def escaped? : List Char → Option (Char × List Char)
  | 'b' :: rest => some ('\x08', rest)
  | 't' :: rest => some ('\t', rest)
  | 'n' :: rest => some ('\n', rest)
  | 'f' :: rest => some ('\x0c', rest)
  | 'r' :: rest => some ('\r', rest)
  | '"' :: rest => some ('"', rest)
  | '\\' :: rest => some ('\\', rest)
  | 'u' :: rest => numbered? 4 rest
  | 'U' :: rest => numbered? 8 rest
  | _ => none

/-- The character at the front of the inside of a string in double quotes. -/
def character? : List Char → Option (Char × List Char)
  | '\\' :: rest => escaped? rest
  | c :: rest => if isPrintable c && c != '"' then some (c, rest) else none
  | [] => none

/-- The inside of a string behind its opening double quote, and the text behind its closing
one. The bound limits the steps. -/
def basicWithin : Nat → List Char → Option (List Char × List Char)
  | 0, _ => none
  | _ + 1, '"' :: rest => some ([], rest)
  | bound + 1, text =>
    match character? text with
    | some (c, rest) => prepend [c] (basicWithin bound rest)
    | none => none

/-- The inside of a string behind its opening double quote. -/
def basic? (text : List Char) : Option (List Char × List Char) :=
  basicWithin text.length text

/-- The characters of a string in single quotes. -/
def isLiteral (c : Char) : Bool :=
  isPrintable c && c != '\''

/-- The inside of a string behind its opening single quote. -/
def literal? (text : List Char) : Option (List Char × List Char) :=
  match text.dropWhile isLiteral with
  | '\'' :: rest => some (text.takeWhile isLiteral, rest)
  | _ => none

/-- The quotes that belong to the inside of a string in tripled quotes, and the text behind its
closing quotes, if these are in front. -/
def closing? (quote : Char) (text : List Char) : Option (List Char × List Char) :=
  let count := (text.takeWhile (· == quote)).length
  if count < 3 then none
  else
    let kept := min (count - 3) 2
    some (List.replicate kept quote, text.drop (kept + 3))

/-- The text behind a backslash at the end of a line: it joins the lines, so that the line end
and the blanks and line ends that follow it are passed over. -/
def continued? : List Char → Option (List Char)
  | '\\' :: rest => (newLine? (dropSpaces rest)).map dropLines
  | _ => none

/-- A piece of the inside of a string in tripled double quotes, and what it stands for. -/
def basicPiece? (text : List Char) : Option (List Char × List Char) :=
  match continued? text with
  | some rest => some ([], rest)
  | none =>
    match character? text with
    | some (c, rest) => some ([c], rest)
    | none => none

/-- A piece of the inside of a string in tripled single quotes. -/
def literalPiece? : List Char → Option (List Char × List Char)
  | c :: rest => if isLiteral c then some ([c], rest) else none
  | [] => none

/-- The inside of a string up to its tripled closing quotes. The bound limits the steps. -/
def multiLineWithin (quote : Char) (piece? : List Char → Option (List Char × List Char)) :
    Nat → List Char → Option (List Char × List Char)
  | 0, _ => none
  | bound + 1, text =>
    match closing? quote text with
    | some closed => some closed
    | none =>
      match newLine? text with
      | some rest => prepend ['\n'] (multiLineWithin quote piece? bound rest)
      | none =>
        match text with
        | [] => none
        | c :: rest =>
          if c = quote then prepend [c] (multiLineWithin quote piece? bound rest)
          else
            match piece? text with
            | some (piece, rest) => prepend piece (multiLineWithin quote piece? bound rest)
            | none => none

/-- The inside of a string behind its tripled opening quotes. -/
def multiLine? (quote : Char) (piece? : List Char → Option (List Char × List Char))
    (text : List Char) : Option (List Char × List Char) :=
  let inside := (newLine? text).getD text
  multiLineWithin quote piece? (inside.length + 1) inside

/-- The string at the front of a text. -/
def read? : List Char → Option (List Char × List Char)
  | '"' :: '"' :: '"' :: rest => multiLine? '"' basicPiece? rest
  | '"' :: rest => basic? rest
  | '\'' :: '\'' :: '\'' :: rest => multiLine? '\'' literalPiece? rest
  | '\'' :: rest => literal? rest
  | _ => none

end SchemaGraph.Toml.Quoted
