import SchemaGraph.Text.Runs

/-!
# Schema trees

A schema arrives as a tree of nodes. A node has a kind, a text, children and, if known, the
place it was read from. What the children mean hangs on the kind: the first child of a
declaration, a property or an option is its name.
-/

namespace SchemaGraph

/-- What a node stands for. -/
inductive NodeKind
  /-- A record declaration: its name, then its members. -/
  | record
  /-- An enumeration: its name, then its values. -/
  | enumeration
  /-- A property: its name, its type expression, then options and comments. -/
  | property
  /-- An option of a property: its name, then its arguments. -/
  | option
  /-- A named argument of an option: a name and a value. -/
  | pair
  /-- A comment, whose children are its words. -/
  | comment
  /-- Announces the name of a type. -/
  | typePrimitive
  /-- Announces one element type. -/
  | typeList
  /-- Announces one element type. -/
  | typeSet
  /-- Announces a key type and a value type. -/
  | typeMap
  /-- The end of the input. -/
  | eof
  /-- A leaf: a name, a literal, a value or a word. -/
  | token
deriving DecidableEq, Repr

namespace NodeKind

/-- All kinds. -/
def all : List NodeKind :=
  [record, enumeration, property, option, pair, comment, typePrimitive, typeList, typeSet,
    typeMap, eof, token]

/-- The word for a kind in a schema file. -/
def word : NodeKind → String
  | record => "record"
  | enumeration => "enum"
  | property => "property"
  | option => "option"
  | pair => "pair"
  | comment => "comment"
  | typePrimitive => "type_primitive"
  | typeList => "type_list"
  | typeSet => "type_set"
  | typeMap => "type_map"
  | eof => "eof"
  | token => "token"

/-- The kind that a word of a schema file stands for. -/
def ofWord? (text : String) : Option NodeKind :=
  all.find? (·.word == text)

/-- The name of a kind in a message. -/
def label : NodeKind → String
  | record => "Record"
  | enumeration => "Enum"
  | property => "Property"
  | option => "Option"
  | pair => "Pair"
  | comment => "Comment"
  | typePrimitive => "TypePrimitive"
  | typeList => "TypeList"
  | typeSet => "TypeSet"
  | typeMap => "TypeMap"
  | eof => "Eof"
  | token => "Token"

end NodeKind

/-- A place in the source of a schema, as far as it is known, counted from one. -/
structure Position where
  line : Option Nat
  column : Option Nat
deriving DecidableEq, Repr

/-- The place of which nothing is known. -/
def Position.unknown : Position :=
  ⟨none, none⟩

/-- A node of a schema tree. -/
structure Node where
  kind : NodeKind
  text : String
  children : List Node
  position : Position
deriving Repr

namespace Node

/-- A node of which no place is known. -/
def make (kind : NodeKind) (text : String) (children : List Node) : Node :=
  ⟨kind, text, children, Position.unknown⟩

/-- A leaf. -/
def token (text : String) : Node :=
  make .token text []

/-- The declaration of a record with the given members. -/
def record (name : String) (members : List Node) : Node :=
  make .record "data" (token name :: members)

/-- The declaration of an enumeration with the given values. -/
def enumeration (name : String) (values : List String) : Node :=
  make .enumeration "enum" (token name :: values.map token)

/-- An option with the given arguments. -/
def option (name : String) (arguments : List Node) : Node :=
  make .option "option" (token name :: arguments)

/-- A named argument. -/
def pair (name value : String) : Node :=
  make .pair "=" [token name, token value]

/-- A comment, cut into words. -/
def comment (text : String) : Node :=
  make .comment "comment" ((Text.words text).map token)

/-- The end of the input. -/
def eof : Node :=
  make .eof "<EOF>" []

/-- The same node at another place. -/
def placed (position : Position) (node : Node) : Node :=
  { node with position }

/-- The text of the first child. -/
def firstChildText? (node : Node) : Option String :=
  node.children.head?.map Node.text

/-- The text of a comment: its words joined by single spaces, or its own text if it has none. -/
def commentText (node : Node) : String :=
  if node.children.isEmpty then node.text
  else " ".intercalate (node.children.map Node.text)

end Node

/-- A schema: its top-level nodes. -/
abbrev Schema := List Node

end SchemaGraph
