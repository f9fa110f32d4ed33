import SchemaGraph.Json.Fields
import SchemaGraph.Json.Reader
import SchemaGraph.Node

/-!
# Schema trees as JSON

A node is written with its kind and text always, and with its children and place as far as
there are any. Where a schema is read, at most 127 arrays and objects may stand inside one another.
The schema takes the first two of them, and a node takes one for itself and another one for the list
of its children, even if that is empty.
-/

namespace SchemaGraph

/-- The numbers that a place can be counted with. -/
def Position.limit : Nat := 0x10000000000000000

/-- The count of arrays and objects that may stand inside one another. -/
def Schema.maxNested : Nat := 127

namespace Node

/-- The fields of a node, in order. -/
def fieldNames : List String :=
  ["kind", "text", "children", "line", "column"]

mutual
/-- A node as JSON. -/
def toJson : Node → Json
  | ⟨kind, text, children, position⟩ =>
    .object
      ([("kind", .string kind.word), ("text", .string text)] ++
        (if children.isEmpty then [] else [("children", .array (listToJson children))]) ++
        Json.naturalField "line" position.line ++ Json.naturalField "column" position.column)
/-- Nodes as JSON. -/
def listToJson : List Node → List Json
  | [] => []
  | node :: rest => toJson node :: listToJson rest
end

/-- Read a node, given how to read its kind and its children. -/
def assemble? (kind? : Json → Option NodeKind) (children? : Json → Option (List Node))
    (json : Json) : Option Node :=
  match Json.record? fieldNames 1 json with
  | some [kind, text, children, line, column] => do
    let kind ← Json.required? kind? kind
    let text ← Json.defaulted? "" Json.text? text
    let children ← Json.defaulted? [] children? children
    let line ← Json.optional? (Json.below? Position.limit) line
    let column ← Json.optional? (Json.below? Position.limit) column
    some ⟨kind, text, children, ⟨line, column⟩⟩
  | _ => none

/-- Read a node that has room for so many arrays and objects inside one another, itself included.
Where it takes all of the room, its kind can be no object and its children no array. -/
def ofJson? : Nat → Json → Option Node
  | 0, _ => none
  | 1, json => assemble? (Json.plainWord? NodeKind.ofWord?) (fun _ => none) json
  | room + 2, json => assemble? (Json.word? NodeKind.ofWord?) (Json.items? (ofJson? room)) json

end Node

namespace Schema

/-- A schema as JSON. -/
def toJson (schema : Schema) : Json :=
  .object [("nodes", .array (Node.listToJson schema))]

/-- Read a schema from JSON. It is an object, in which its nodes stand in an array. -/
def ofJson? (json : Json) : Option Schema :=
  match Json.record? ["nodes"] 1 json with
  | some [nodes] => Json.required? (Json.items? (Node.ofJson? (maxNested - 2))) nodes
  | _ => none

/-- Read a schema from JSON text. -/
def ofText? (text : String) : Option Schema :=
  match Json.ofText? text with
  | some json => ofJson? json
  | none => none

end Schema

end SchemaGraph
