import SchemaGraph.Registry

/-!
# The first pass: empty shells

Before anything is resolved, every record and enumeration of a schema is registered as an empty
shell, in document order, so that types may be referred to before they are declared. A node is
nested in a record only if it is a child of that record's node. A declaration that cannot be
registered is skipped with everything inside it, and the pass goes on behind it.
-/

namespace SchemaGraph

/-- A skipped declaration: what is wrong with it and the scope that it stands in. -/
structure Skip where
  error : CompileError
  scope : Option String
deriving DecidableEq, Repr

/-- The diagnostic of a skipped declaration. -/
def Skip.diagnostic (skip : Skip) : Diagnostic :=
  skip.error.toDiagnostic skip.scope

/-- A text can name a declaration: it is not empty and has neither dots nor blanks. -/
def isLocalName (text : String) : Bool :=
  !text.toList.isEmpty && text.toList.all fun c => c != '.' && !Text.isBlank c

/-- The local name of a declaration, read from its first child. -/
def declarationName (node : Node) : Except CompileError String :=
  if node.kind ≠ .token then .error (.atNode node (.declarationNameExpected node.kind))
  else if isLocalName node.text then .ok node.text
  else .error (.atNode node (.invalidDeclarationName node.text))

/-- Register the declaration of a name under a parent, if the kind of node declares anything. -/
def registerNamed (registry : Registry) (parent : Option TypeId) (kind : NodeKind)
    (name : Node) : Except CompileError (Option (TypeId × Registry)) :=
  match kind with
  | .record =>
    match declarationName name with
    | .ok text => ((registry.registerRecord parent text).mapError .ofRegistry).map some
    | .error error => .error error
  | .enumeration =>
    match declarationName name with
    | .ok text => ((registry.registerEnumeration parent text).mapError .ofRegistry).map some
    | .error error => .error error
  | _ => .ok none

/-- What the first pass has done so far. -/
structure Shells where
  registry : Registry
  /-- The skipped declarations, in document order. -/
  skips : List Skip
deriving DecidableEq, Repr

namespace Shells

/-- Record a declaration that is skipped inside a parent. -/
def skip (shells : Shells) (parent : Option TypeId) (error : CompileError) : Shells :=
  match shells.registry.scopeName parent with
  | .ok scope => { shells with skips := shells.skips ++ [⟨error, scope⟩] }
  | .error unknown => { shells with skips := shells.skips ++ [⟨.ofRegistry unknown, none⟩] }

mutual
/-- Register every declaration of a node that stands inside a parent. -/
def declare (parent : Option TypeId) : Node → Shells → Shells
  | ⟨_, _, [], _⟩, shells => shells
  | ⟨kind, _, name :: members, _⟩, shells =>
    match registerNamed shells.registry parent kind name with
    | .ok (some (id, registry)) =>
      let scope := if kind = .record then some id else none
      declareAll scope members (declare scope name { shells with registry })
    | .ok none => declareAll none members (declare none name shells)
    | .error error => shells.skip parent error
/-- Register every declaration of a list of nodes that stand inside a parent. -/
def declareAll (parent : Option TypeId) : List Node → Shells → Shells
  | [], shells => shells
  | node :: rest, shells => declareAll parent rest (declare parent node shells)
end

/-- The first pass over a schema, given the registry of the builtin types. -/
def ofSchema (builtins : Registry) (schema : Schema) : Shells :=
  declareAll none schema ⟨builtins, []⟩

end Shells

end SchemaGraph
