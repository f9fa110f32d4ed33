/-!
# Blank characters and runs

Text is cut at separators in several places: a comment into words at blanks, a name into
parts at dots and underscores, a type expression into names at its delimiters. All of them
take maximal runs of the characters that do not separate, so that repeated, leading and
trailing separators leave nothing behind.
-/

namespace SchemaGraph.Text

/-- The characters with the Unicode property `White_Space`. -/
def isBlank (c : Char) : Bool :=
  let n := c.toNat
  (9 ≤ n && n ≤ 13) || n == 0x20 || n == 0x85 || n == 0xA0 || n == 0x1680 ||
    (0x2000 ≤ n && n ≤ 0x200A) || n == 0x2028 || n == 0x2029 || n == 0x202F || n == 0x205F ||
    n == 0x3000

/-- Drop the blanks in front. -/
def dropBlanks (text : List Char) : List Char :=
  text.dropWhile isBlank

/-- The maximal runs of characters that are no separators, in order. -/
def runs (separates : Char → Bool) : List Char → List (List Char)
  | [] => []
  | c :: rest =>
    if separates c then runs separates rest
    else (c :: rest.takeWhile (!separates ·)) :: runs separates (rest.dropWhile (!separates ·))
termination_by text => text.length
decreasing_by
  · simp
  · have := (rest.dropWhile_suffix (!separates ·)).length_le
    simp only [List.length_cons]
    omega

/-- The words of a text: its maximal runs of characters that are not blank. -/
def words (text : String) : List String :=
  (runs isBlank text.toList).map String.ofList

end SchemaGraph.Text
