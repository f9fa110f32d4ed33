import SchemaGraph.Node

/-!
# Written type expressions

A type is written as in `map<string, list<int>>`. In a tree it stands as the flat sequence of
its markers and names, in reading order. Angle brackets, commas and blanks only delimit names:
a container keyword in front of `<` becomes a marker, any other name a name, and no shape is
checked here.
-/

namespace SchemaGraph.Node

open SchemaGraph.Text

/-- The characters that end a name in a type expression. -/
def delimitsName (c : Char) : Bool :=
  c == '<' || c == '>' || c == ',' || isBlank c

/-- The marker of a container keyword. -/
def containerMarker? : String → Option NodeKind
  | "list" => some .typeList
  | "set" => some .typeSet
  | "map" => some .typeMap
  | _ => none

/-- The next character that is not blank opens an angle bracket. -/
def opensBracket (text : List Char) : Bool :=
  (dropBlanks text).head? == some '<'

/-- The nodes of one name, given the text behind it. -/
def nameNodes (name : String) (rest : List Char) : List Node :=
  match containerMarker? name with
  | some kind =>
    if opensBracket rest then [make kind name []]
    else [make .typePrimitive "type" [], token name]
  | none => [make .typePrimitive "type" [], token name]

/-- The nodes of all names in a text. -/
def expressionNodes : List Char → List Node
  | [] => []
  | c :: rest =>
    if delimitsName c then expressionNodes rest
    else
      let after := rest.dropWhile (!delimitsName ·)
      nameNodes (String.ofList (c :: rest.takeWhile (!delimitsName ·))) after ++
        expressionNodes after
termination_by text => text.length
decreasing_by
  · simp
  · have := (rest.dropWhile_suffix (!delimitsName ·)).length_le
    simp only [List.length_cons]
    omega

/-- The nodes of a written type expression. -/
def ofTypeExpression (text : String) : List Node :=
  expressionNodes text.toList

/-- A property whose type is written out, followed by options and comments. -/
def property (name typeExpression : String) (extras : List Node) : Node :=
  make .property "property" (token name :: (ofTypeExpression typeExpression ++ extras))

end SchemaGraph.Node
