/-!
# The layout of TOML

What stands between the keys and values of a TOML text: blanks, line ends and comments. A line
ends with a line feed, which a carriage return may precede. A comment goes on to the end of its
line and holds no control characters.
-/

namespace SchemaGraph.Toml

/-- The blanks within a line. -/
def isSpace (c : Char) : Bool :=
  c == ' ' || c == '\t'

/-- The characters that may stand in comments and strings: no controls but the tab. -/
def isPrintable (c : Char) : Bool :=
  c == '\t' || (0x20 ≤ c.toNat && c.toNat != 0x7F)

/-- Drop the blanks in front. -/
def dropSpaces (text : List Char) : List Char :=
  text.dropWhile isSpace

/-- The text behind the end of a line at its front. -/
def newLine? : List Char → Option (List Char)
  | '\n' :: rest => some rest
  | '\r' :: '\n' :: rest => some rest
  | _ => none

/-- Drop a comment in front, without the end of its line. -/
def dropComment : List Char → List Char
  | '#' :: rest => rest.dropWhile isPrintable
  | text => text

/-- The text behind the rest of a line on which nothing but a comment follows. -/
def endLine? (text : List Char) : Option (List Char) :=
  match dropComment (dropSpaces text) with
  | [] => some []
  | rest => newLine? rest

/-- To pass over a line break uses the text up, which is why reading a document comes to an end. -/
theorem length_newLine? {text rest : List Char} (h : newLine? text = some rest) :
    rest.length < text.length := by
  unfold newLine? at h
  split at h
  · injection h with h
    simp [← h]
  · injection h with h
    simp only [← h, List.length_cons]
    omega
  · cases h

/-- To drop spaces never lengthens a text. -/
theorem length_dropSpaces (text : List Char) : (dropSpaces text).length ≤ text.length :=
  (text.dropWhile_suffix isSpace).length_le

/-- Dropping a comment never lengthens a text. -/
theorem length_dropComment (text : List Char) : (dropComment text).length ≤ text.length := by
  unfold dropComment
  split
  · next rest =>
    have := (rest.dropWhile_suffix isPrintable).length_le
    simp only [List.length_cons]
    omega
  · exact Nat.le_refl _

/-- Drop blanks and line ends in front. -/
def dropLines (text : List Char) : List Char :=
  match _ended : newLine? (dropSpaces text) with
  | some rest => dropLines rest
  | none => dropSpaces text
termination_by text.length
decreasing_by
  have := length_newLine? _ended
  have := length_dropSpaces text
  omega

/-- Drop blanks, line ends and comments in front. -/
def dropFiller (text : List Char) : List Char :=
  match _ended : newLine? (dropComment (dropSpaces text)) with
  | some rest => dropFiller rest
  | none => dropComment (dropSpaces text)
termination_by text.length
decreasing_by
  have := length_newLine? _ended
  have := length_dropComment (dropSpaces text)
  have := length_dropSpaces text
  omega

end SchemaGraph.Toml
