import SchemaGraph.Contents

/-!
# The outline of a registry

The outline shows every record and every enumeration, those of the top level in the order of
their registration. What is nested in a record follows it at once, one level deeper. Builtin
types are not shown.
-/

namespace SchemaGraph

/-- A property as it is shown in an outline. -/
structure ShownProperty where
  key : String
  type : String
  /-- The property has the name of the identity property. -/
  identity : Bool
deriving DecidableEq, Repr

/-- What an outline shows of a declaration. -/
inductive Shown
  | record (comment : Option String) (properties : List ShownProperty)
  | enumeration (values : List String)
  /-- A builtin type, of which nothing is shown. -/
  | builtin
deriving DecidableEq, Repr

/-- An entry of an outline. -/
structure OutlineEntry where
  /-- The count of records around the declaration. -/
  depth : Nat
  id : TypeId
  name : String
  shown : Shown
deriving DecidableEq, Repr

namespace Registry

/-- A type as an outline shows it. One that refers to nothing is shown as the reason why. -/
def shownType (registry : Registry) (type : SchemaType) : String :=
  match registry.describe type with
  | .ok text => text
  | .error error => error.message

/-- The properties of a record as an outline shows them. -/
def shownProperties (registry : Registry) (record : RecordType) : List ShownProperty :=
  record.properties.map fun property =>
    ⟨property.key, registry.shownType property.type,
      some property.name == record.identityProperty?.map (·.name)⟩

/-- A declaration as an outline shows it. -/
def shown (registry : Registry) : Declaration → Shown
  | .record record => .record record.comment (registry.shownProperties record)
  | .enumeration enumeration => .enumeration enumeration.values
  | _ => .builtin

/-- The ids of a declaration and of all that is nested in it, with their depths. The bound limits
the levels. -/
def branch (registry : Registry) : Nat → Nat → TypeId → List (Nat × TypeId)
  | 0, _, _ => []
  | bound + 1, depth, id =>
    (depth, id) ::
      match registry.record? id with
      | some record => record.children.flatMap (registry.branch bound (depth + 1))
      | none => []

/-- The ids of the records and enumerations of the top level. -/
def roots (registry : Registry) : List TypeId :=
  (registry.userTypes.filter (·.2.parent.isNone)).map Prod.fst

/-- The ids of all records and enumerations in the order of the outline, with their depths. No
declaration is nested deeper than there are declarations. -/
def tree (registry : Registry) : List (Nat × TypeId) :=
  registry.roots.flatMap (registry.branch registry.size 0)

/-- The outline. -/
def outline (registry : Registry) : List OutlineEntry :=
  registry.tree.filterMap fun (depth, id) =>
    registry.declarations[id]?.map fun declaration =>
      ⟨depth, id, declaration.name, registry.shown declaration⟩

end Registry

/-- The indentation of a depth. -/
def indentation (depth : Nat) : String :=
  String.ofList (List.replicate (2 * depth) ' ')

/-- The line of a property. -/
def ShownProperty.text (indent : String) (property : ShownProperty) : String :=
  indent ++ "  " ++ property.key ++ ": " ++ property.type ++
    (if property.identity then " [identity]" else "") ++ "\n"

namespace OutlineEntry

/-- The comment behind the name of a record. -/
def commentText : Option String → String
  | some comment => "  // " ++ comment
  | none => ""

/-- The lines of an entry, behind an empty one. -/
def text (entry : OutlineEntry) : String :=
  let indent := indentation entry.depth
  match entry.shown with
  | .record comment properties =>
    "\n" ++ indent ++ "data " ++ entry.name ++ commentText comment ++ "\n" ++
      String.join (properties.map (ShownProperty.text indent))
  | .enumeration values =>
    "\n" ++ indent ++ "enum " ++ entry.name ++ " \x7b " ++ ", ".intercalate values ++ " \x7d\n"
  | .builtin => ""

end OutlineEntry

namespace Registry

/-- A line across the page. -/
def rule : String :=
  String.ofList (List.replicate 60 '=') ++ "\n"

/-- The outline under its title. -/
def outlineText (registry : Registry) : String :=
  "\n" ++ rule ++ "Type Graph\n" ++ rule ++
    String.join (registry.outline.map OutlineEntry.text) ++ "\n"

end Registry

end SchemaGraph
